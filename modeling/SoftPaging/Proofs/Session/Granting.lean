import Mathlib
import SoftPaging.Proofs.Session.Permissions
import SoftPaging.Proofs.Tlb.Buffer

/-!
# The permission that a fault grants

A fault that is serviced installs the entry that it leaves in the page table. Which entry that is
depends on the page. One that was not resident gets the permission in force: it may be written to just
when the newest region that contains the address says so, or when there is none. One that was resident
keeps its entry, whatever became of the regions since it was mapped (`fault_grants`).

So the loader can write to each page that it is the first to touch. A page of a text that was touched
before the load was begun stays read-only while the region around it is writable, and one that was
writable stays so under a newer region that is not (`stale_pages_keep_their_entries`).
-/

namespace SoftPaging

open Outcome

/-- Where every region is writable, a page that is granted may be written to. -/
theorem AddressSpace.grants_of_writable {sp : AddressSpace} {a : VirtualAddress} {writable : Bool}
    (hregions : ∀ r ∈ sp.regions, r.permissions.writable = true)
    (hgrants : sp.grants a = some writable) : writable = true := by
  unfold AddressSpace.grants at hgrants
  cases hnewest : sp.newestAt a with
  | some r =>
    rw [hnewest] at hgrants
    rw [← Option.some.inj hgrants]
    exact hregions r (AddressSpace.mem_regions_of_newestAt hnewest)
  | none =>
    rw [hnewest, Option.ite_none_right_eq_some] at hgrants
    exact (Option.some.inj hgrants.2).symm

namespace Session

variable {p : FramePool} {s s' s₀ : Session} {trace : List (Request × Bool)} {i : Nat}
  {sp : AddressSpace} {a : VirtualAddress}

/-- A fault at an address of the space `sp` was serviced: the page of the address is resident, and its
entry is in the TLB. -/
structure Grants (s : Session) (i : Nat) (sp : AddressSpace) (a : VirtualAddress) (s' : Session) :
    Prop where
  object_eq : s'.object i = some (.space sp)
  resident : (sp.table.entryIn s'.kernel.ram a).isValid = true
  /-- The entry went into the slot that the Random register named. -/
  installed : s'.mmu.tlb.slots.get s.mmu.tlb.random =
    .forPage a (sp.table.entryIn s'.kernel.ram a)
  /-- A page that was not resident gets the permission in force. -/
  fresh : (sp.table.entryIn s.kernel.ram a).isValid = false →
    ((sp.table.entryIn s'.kernel.ram a).isDirty = true ↔ sp.MayWrite a)
  /-- While a load is in progress that is always write permission. -/
  loading : (sp.table.entryIn s.kernel.ram a).isValid = false →
    (∀ r ∈ sp.regions, r.permissions.writable = true) →
      (sp.table.entryIn s'.kernel.ram a).isDirty = true
  /-- A page that was resident keeps its entry. -/
  kept : (sp.table.entryIn s.kernel.ram a).isValid = true →
    sp.table.entryIn s'.kernel.ram a = sp.table.entryIn s.kernel.ram a

theorem Sound.grants (h : s.Sound p) (ho : s.object i = some (.space sp)) {code : Nat}
    (hrun : (perform (.fault (some i) code a)).run s = .done () s') : s.Grants i sp a s' := by
  obtain ⟨k', writable, e, rfl, hgrants, hmaps⟩ := (h.faultAt_meets ho code a).of_done hrun
  have hshows := (h.held ho (t := sp.table) rfl).shows
  have hentry : sp.table.entryIn k'.ram a = e := hmaps.entryIn_eq
  have hslot := s.mmu.tlb.get_slots_writeRandom (.forPage a e) s.mmu.tlb.random
  rw [if_pos rfl] at hslot
  have hdirty (hinvalid : (sp.table.entryIn s.kernel.ram a).isValid = false) :
      e.isDirty = writable := by
    rw [hshows.entryIn_eq, isValid_entryOf, Option.isSome_eq_false_iff, Option.isNone_iff_eq_none]
      at hinvalid
    exact hmaps.isDirty_of_none hinvalid
  refine ⟨ho, ?_, ?_, fun hinvalid => ?_, fun hinvalid hregions => ?_, fun hvalid => ?_⟩
  · show (sp.table.entryIn k'.ram a).isValid = true
    rw [hentry]
    exact hmaps.isValid
  · show (s.mmu.tlb.writeRandom (.forPage a e)).slots.get s.mmu.tlb.random = _
    rw [hslot, ← hentry]
    rfl
  · show (sp.table.entryIn k'.ram a).isDirty = true ↔ sp.MayWrite a
    rw [hentry, hdirty hinvalid, (h.take ho).2.1.mayWrite_iff, hgrants, Option.some.injEq]
  · show (sp.table.entryIn k'.ram a).isDirty = true
    rw [hentry, hdirty hinvalid]
    exact AddressSpace.grants_of_writable hregions hgrants
  · exact hmaps.entryIn_of_valid hshows hvalid

/-- However a session was come to, between the beginning and the end of a load or not, a fault that is
serviced grants a page that was not resident the permission in force, and leaves the entry of one that
was as it is. -/
theorem fault_grants (hboot : s₀.Booted p)
    (hruns : Runs (fun s r => r.Permitted p s) s₀ trace s) (ho : s.object i = some (.space sp))
    {code : Nat} (hrun : (perform (.fault (some i) code a)).run s = .done () s') :
    s.Grants i sp a s' :=
  (hruns.sound (fun _ _ hr => hr) hboot.sound).grants ho hrun

/-! ## A small machine -/

/-- What a client does to make a space and define the text of its program. -/
def definesText : List (Request × Bool) :=
  [(.newSpace, true), (.addRegion 0 textStart pageSize ⟨true, false, true⟩, true)]

/-- The text is touched: its page is resident then, and may be written to if the text may. -/
theorem exists_touched_text (permissions : Permissions) : ∃ (s₀ s s' : Session) (sp : AddressSpace),
    s₀.Booted (pages 8) ∧ Runs (fun s r => r.Permitted (pages 8) s) s₀
      [(.newSpace, true), (.addRegion 0 textStart pageSize permissions, true)] s ∧
      s.object 0 = some (.space sp) ∧
        (perform (.fault (some 0) 0 textStart)).run s = .done () s' ∧ s'.Alone sp ∧
          sp.regions = [.spanning textStart 0x401000 permissions] ∧
            (sp.table.entryIn s'.kernel.ram textStart).isValid = true ∧
              (sp.table.entryIn s'.kernel.ram textStart).isDirty = permissions.writable := by
  obtain ⟨s₀, s₁, s, -, sp, hboot, hmade, -, -, hadded, halone, hregions, hvacant⟩ :=
    exists_text permissions
  have hruns : Runs (fun s r => r.Permitted (pages 8) s) s₀
      [(.newSpace, true), (.addRegion 0 textStart pageSize permissions, true)] s :=
    .granted (.granted .start trivial hmade) trivial hadded
  have hsound := hruns.sound (fun _ _ hr => hr) hboot.sound
  have hgrants : sp.grants textStart = some permissions.writable :=
    AddressSpace.grants_of_last (congrArg List.getLast? hregions) (covers_text permissions)
  obtain ⟨s', hfault, -, halone', -⟩ := halone.fault_done hsound (by decide) hvacant
    (a := textStart) (AddressSpace.reaches_iff.2 ⟨by decide, hgrants ▸ Option.some_ne_none _⟩)
  have hinvalid : (sp.table.entryIn s.kernel.ram textStart).isValid = false := by
    rw [(hsound.held halone.object_eq (t := sp.table) rfl).shows.entryIn_eq, hvacant,
      TableMap.page_of_closed rfl, entryOf_none, PageEntry.isValid_empty]
  have hgranted := hsound.grants halone.object_eq hfault
  refine ⟨s₀, s, s', sp, hboot, hruns, halone.object_eq, hfault, halone', hregions,
    hgranted.resident, ?_⟩
  rw [Bool.eq_iff_iff, hgranted.fresh hinvalid, (hsound.take halone.object_eq).2.1.mayWrite_iff,
    hgrants, Option.some.injEq]

/-- The first fault of a text grants no more than the text allows. -/
theorem eight_pages_granted : ∃ (s₀ s s' : Session) (sp : AddressSpace), s₀.Booted (pages 8) ∧
    Runs (fun s r => r.Permitted (pages 8) s) s₀ definesText s ∧ s.object 0 = some (.space sp) ∧
      (perform (.fault (some 0) 0 textStart)).run s = .done () s' ∧ s.Grants 0 sp textStart s' ∧
        (sp.table.entryIn s'.kernel.ram textStart).isDirty = false := by
  obtain ⟨s₀, s, s', sp, hboot, hruns, ho, hfault, -, -, -, hclean⟩ :=
    exists_touched_text ⟨true, false, true⟩
  exact ⟨s₀, s, s', sp, hboot, hruns, ho, hfault, fault_grants hboot hruns ho hfault, hclean⟩

/-- A fault at a page that is resident, and is still granted, needs no frame and keeps the entry. -/
theorem Sound.fault_keeps (h : s.Sound p) (ho : s.object i = some (.space sp)) {code : Nat}
    (hcode : code < 2) (hreach : sp.Reaches a)
    (hvalid : (sp.table.entryIn s.kernel.ram a).isValid = true) :
    ∃ s', (perform (.fault (some i) code a)).run s = .done () s' ∧
      sp.table.entryIn s'.kernel.ram a = sp.table.entryIn s.kernel.ram a := by
  have hfree : sp.table.need s.kernel.ram a ≤ p.freeFrames s.kernel.ram := by
    rw [PageTable.need_of_valid hvalid]
    exact Nat.zero_le _
  obtain ⟨s', hrun, -⟩ := h.fault_done ho hcode hreach hfree
  exact ⟨s', hrun, (h.grants ho hrun).kept hvalid⟩

/-- What a page that is resident may be used for can differ from the permission in force in both ways.
The page of a text that was touched before the load began: a fault while it is in progress is serviced,
with write permission in force, and leaves an entry that does not have it. The page of a text that may
be written to, and was touched: a fault after a text that may not was defined in the same place is
serviced, without write permission in force, and leaves an entry that has it. -/
theorem stale_pages_keep_their_entries :
    (∃ (s₀ s s' : Session) (sp : AddressSpace), s₀.Booted (pages 8) ∧
      Runs (fun s r => r.Permitted (pages 8) s) s₀
        (definesText ++ [(.fault (some 0) 0 textStart, true)] ++ [(.beginLoad 0, true)]) s ∧
        s.object 0 = some (.space sp) ∧
          (perform (.fault (some 0) 1 textStart)).run s = .done () s' ∧ sp.MayWrite textStart ∧
            (sp.table.entryIn s'.kernel.ram textStart).isDirty = false) ∧
    ∃ (s₀ s s' : Session) (sp : AddressSpace), s₀.Booted (pages 8) ∧
      Runs (fun s r => r.Permitted (pages 8) s) s₀
        [(.newSpace, true), (.addRegion 0 textStart pageSize ⟨true, true, true⟩, true),
          (.fault (some 0) 0 textStart, true),
          (.addRegion 0 textStart pageSize ⟨true, false, true⟩, true)] s ∧
        s.object 0 = some (.space sp) ∧
          (perform (.fault (some 0) 0 textStart)).run s = .done () s' ∧ ¬ sp.MayWrite textStart ∧
            (sp.table.entryIn s'.kernel.ram textStart).isDirty = true := by
  constructor
  · obtain ⟨s₀, s₁, s₂, sp, hboot, hruns₁, -, htouch, halone₂, hregions, hvalid, hclean⟩ :=
      exists_touched_text ⟨true, false, true⟩
    have hruns₂ := hruns₁.granted (r := .fault (some 0) 0 textStart) trivial htouch
    have hruns := hruns₂.granted (r := .beginLoad 0) trivial (run_beginLoad halone₂.object_eq)
    have hsound := hruns.sound (fun _ _ hr => hr) hboot.sound
    have ho := (halone₂.put sp.beginLoad).object_eq
    have hloading : sp.beginLoad.regions = [textRegion.allowWrites] :=
      congrArg (List.map Region.allowWrites) hregions
    have hgrants : sp.beginLoad.grants textStart = some true :=
      AddressSpace.grants_of_last (congrArg List.getLast? hloading) (by decide)
    obtain ⟨s', hfault, hkept⟩ := hsound.fault_keeps ho Nat.one_lt_two (a := textStart)
      (AddressSpace.reaches_iff.2 ⟨by decide, hgrants ▸ Option.some_ne_none _⟩) hvalid
    refine ⟨s₀, _, s', sp.beginLoad, hboot, hruns, ho, hfault, ?_, ?_⟩
    · exact ((hsound.take ho).2.1.mayWrite_iff textStart).2 hgrants
    · rw [hkept]
      exact hclean
  · obtain ⟨s₀, s₁, s₂, sp, hboot, hruns₁, -, htouch, halone₂, hregions, hvalid, hdirty⟩ :=
      exists_touched_text ⟨true, true, true⟩
    have hruns₂ := hruns₁.granted (r := .fault (some 0) 0 textStart) trivial htouch
    have hsound₂ := hruns₂.sound (fun _ _ hr => hr) hboot.sound
    obtain ⟨sp', e, hadded, htable, hregions'⟩ := hsound₂.addRegion_done halone₂.object_eq
      textStart pageSize ⟨true, false, true⟩ regionEnd?_text
    have hruns := hruns₂.granted (r := .addRegion 0 textStart pageSize ⟨true, false, true⟩) trivial
      hadded
    have hsound := hruns.sound (fun _ _ hr => hr) hboot.sound
    have ho := ((halone₂.withKernel (s₂.kernel.push e)).put sp').object_eq
    have hgrants : sp'.grants textStart = some false :=
      AddressSpace.grants_of_last (by rw [hregions', List.getLast?_concat]) (covers_text _)
    rw [← htable] at hvalid hdirty
    obtain ⟨s', hfault, hkept⟩ := hsound.fault_keeps ho Nat.zero_lt_two (a := textStart)
      (AddressSpace.reaches_iff.2 ⟨by decide, hgrants ▸ Option.some_ne_none _⟩) hvalid
    refine ⟨s₀, _, s', sp', hboot, hruns, ho, hfault, ?_, ?_⟩
    · rw [(hsound.take ho).2.1.mayWrite_iff textStart, hgrants]
      decide
    · rw [hkept]
      exact hdirty

end Session

end SoftPaging
