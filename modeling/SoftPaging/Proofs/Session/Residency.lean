import Mathlib
import SoftPaging.Proofs.Session.Permissions
import SoftPaging.Proofs.Session.Steady
import SoftPaging.Proofs.Space.Residency
import SoftPaging.Proofs.Tlb.Buffer

/-!
# What is resident is sanctioned

A machine that makes address spaces, defines their regions, loads them, services their faults and
copies them, in any order and for any number of spaces, never makes a page resident that neither a
region of its space nor the window of its stack contains (`runs_sanctioned`). The regions were checked
when they were defined, so they consist of whole pages and end below the stack. Hence all that is
mapped, in the page tables and in the TLB, is mapped below the kernel segment.

One request keeps this: of what `Request.Yields` lists, only a fault makes a page resident in a space
that is there, and it looks the page up first; a copy has the pages of its source and its regions too.
-/

namespace SoftPaging

open Outcome

namespace Session

variable {p : FramePool} {s s' s₀ : Session} {r : Request} {trace : List (Request × Bool)}
  {b₀ : TlbBuffer}

/-- All that is resident in the spaces is what their regions and the windows of their stacks
sanction, and what the TLB has got since it was `b₀` are pages of the user. -/
structure Sanctioned (b₀ : TlbBuffer) (s : Session) : Prop where
  /-- Whole pages that end below the stack. -/
  region : ∀ i sp, s.object i = some (.space sp) → ∀ r ∈ sp.regions, r.Sound
  resident : ∀ i sp, s.object i = some (.space sp) → ∀ a,
    (sp.table.entryIn s.kernel.ram a).isValid = true → sp.Sanctions a ∧ a.val < kernelSegment
  /-- Slot 512 is the first of the kernel segment. -/
  slot : ∀ i sp, s.object i = some (.space sp) → ∀ j : Fin directorySlots, 512 ≤ j.val →
    sp.table.slotIn s.kernel.ram j = none
  tlb : s.mmu.tlb.UserSince b₀

/-! ## One request -/

/-- Each space admits what is resident in it. -/
theorem EachSpace.admits (h : s.EachSpace fun _ sp m => sp.Admits m) (hsound : s.Sound p)
    (hr : r.OnSpaces s) (hrun : (perform r).run s = .done () s') :
    s'.EachSpace fun _ sp m => sp.Admits m := by
  refine h.step (hsound.steps hr hrun) fun i sp m hyields _ => ⟨?_, fun _ _ _ _ => id⟩
  cases hyields with
  | newSpace hregions => exact sp.admits_vacant
  | addRegion hspace _ hregions =>
    exact (h _ _ _ hspace).mono (AddressSpace.extends_append hregions)
  | beginLoad hspace => exact (h _ _ _ hspace).mono (AddressSpace.extends_beginLoad _)
  | endLoad hspace hpage hslot =>
    apply AddressSpace.Admits.mono _ (AddressSpace.extends_restored _)
    apply (h _ _ _ hspace).of_under
    constructor
    · intro j hj
      have hsome := congrArg Option.isSome (hslot j)
      rwa [Option.isSome_map, Option.isSome_map, hj, eq_comm] at hsome
    · intro j j' hj
      rwa [hpage, Option.isSome_map] at hj
  | fault hspace hsound' hgrants hmaps => exact (h _ _ _ hspace).maps hsound' hgrants hmaps
  | copySpace hspace hcopied hslot hpage =>
    rename_i i sp₀ m₀ _
    have hregions : sp.regions = sp₀.regions := by rw [hcopied]
    apply AddressSpace.Admits.mono _ (AddressSpace.extends_of_regions hregions)
    apply (h _ _ _ hspace).of_under
    constructor
    · intro j hj
      rwa [← hslot]
    · intro j j' hj
      have hsome := congrArg Option.isSome (hpage j j')
      rwa [Option.isSome_map, Option.isSome_map, hj, eq_comm] at hsome

/-- The TLB gets no entry but that of a page that a fault was granted. -/
theorem Sound.userSince (h : s.Sound p) (htlb : s.mmu.tlb.UserSince b₀) (hr : r.OnSpaces s)
    (hrun : (perform r).run s = .done () s') : s'.mmu.tlb.UserSince b₀ := by
  by_cases hsteady : r.Steady
  · rw [(perform_steady hsteady s).of_done hrun]
    exact htlb
  cases r with
  | endLoad i =>
    obtain ⟨sp, ho⟩ := hr
    obtain ⟨_, hdone, hsealed⟩ := h.endLoad_done ho
    obtain ⟨-, rfl⟩ := Outcome.done.inj (hdone.symm.trans hrun)
    rw [hsealed.mmu_eq]
    exact TlbBuffer.userSince_flush _ _ _
  | fault i? code a =>
    cases i? with
    | none => exact ((h.faultNowhere_meets code a).of_done hrun).elim
    | some i =>
      obtain ⟨sp, ho⟩ := hr
      obtain ⟨k', writable, e, rfl, hgrants, -⟩ := (h.faultAt_meets ho code a).of_done hrun
      have hsanctions := (h.take ho).2.1.sanctions_of_grants hgrants
      apply TlbBuffer.UserSince.writeRandom htlb
      rw [TlbEntry.forPage, EntryHi.page_ofAddress]
      exact (h.take ho).2.1.lt_of_sanctions (AddressSpace.sanctions_pageBase.2 hsanctions)
  | drive f => exact hr.elim
  | _ => exact absurd trivial hsteady

/-- A request about spaces that is refused leaves the MMU as it is. -/
theorem Sound.mmu_of_refused (h : s.Sound p) (hr : r.OnSpaces s) {cause : Refusal}
    (hrun : (perform r).run s = .refused cause s') : s'.mmu = s.mmu := by
  by_cases hsteady : r.Steady
  · exact (perform_steady hsteady s).of_refused hrun
  cases r with
  | endLoad i =>
    obtain ⟨sp, ho⟩ := hr
    obtain ⟨_, hdone, -⟩ := h.endLoad_done ho
    rw [hdone] at hrun
    cases hrun
  | fault i? code a => exact ((h.fault_meets i? code a).of_refused hrun).mmu_eq
  | drive f => exact hr.elim
  | _ => exact absurd trivial hsteady

/-! ## Every run -/

theorem Sound.sanctioned (h : s.Sound p) (hadmits : s.EachSpace fun _ sp m => sp.Admits m)
    (htlb : s.mmu.tlb.UserSince b₀) : s.Sanctioned b₀ where
  region i sp ho := (h.take ho).2.1.regions_sound
  resident i sp ho a hvalid := by
    have hshows := (h.held ho (t := sp.table) rfl).shows
    rw [hshows.entryIn_eq, isValid_entryOf] at hvalid
    have hpage := (hadmits i sp _ (hasSpace ho)).page _ _ hvalid
    rw [Address.pageAt_position, AddressSpace.sanctions_pageBase] at hpage
    exact ⟨hpage, (h.take ho).2.1.lt_of_sanctions hpage⟩
  slot i sp ho j hj := by
    have hshows := (h.held ho (t := sp.table) rfl).shows
    rw [hshows.slotIn_eq, Option.map_eq_none_iff, ← Option.not_isSome_iff_eq_none]
    intro hopen
    exact absurd ((hadmits i sp _ (hasSpace ho)).slot j hopen) (Nat.not_lt.2 hj)
  tlb := htlb

/-- However spaces were made, given regions, loaded, faulted in and copied, nothing is resident in
them but what their regions and the windows of their stacks sanction. -/
theorem runs_sanctioned (hboot : s₀.Booted p)
    (hruns : Runs (fun s r => r.OnSpaces s) s₀ trace s) : s.Sanctioned s₀.mmu.tlb := by
  have hinvariant : (s.EachSpace fun _ sp m => sp.Admits m) ∧
      s.mmu.tlb.UserSince s₀.mmu.tlb := by
    induction hruns with
    | start => exact ⟨hboot.eachSpace, s₀.mmu.tlb.userSince_refl⟩
    | granted h hr hrun ih =>
      have hsound := h.sound (fun _ _ hr => hr.permitted) hboot.sound
      exact ⟨ih.1.admits hsound hr hrun, hsound.userSince ih.2 hr hrun⟩
    | refused h hr hrun ih =>
      have hsound := h.sound (fun _ _ hr => hr.permitted) hboot.sound
      refine ⟨fun i sp m hspace => ih.1 i sp m (hsound.hasSpace_of_refused hr hrun hspace), ?_⟩
      rw [hsound.mmu_of_refused hr hrun]
      exact ih.2
  have hsound := hruns.sound (fun _ _ hr => hr.permitted) hboot.sound
  exact hsound.sanctioned hinvariant.1 hinvariant.2

/-- On eight pages of RAM, the first page of a text is faulted in. -/
theorem eight_pages_sanctioned : ∃ (s₀ s : Session) (sp : AddressSpace), s₀.Booted (pages 8) ∧
    Runs (fun s r => r.OnSpaces s) s₀ [(.newSpace, true),
      (.addRegion 0 textStart pageSize ⟨true, false, true⟩, true),
      (.fault (some 0) 0 textStart, true)] s ∧ s.object 0 = some (.space sp) ∧
        (sp.table.entryIn s.kernel.ram textStart).isValid = true ∧
          s.Sanctioned s₀.mmu.tlb := by
  obtain ⟨s₀, s₁, s₂, sp₁, sp, hboot, hmade, halone₁, -, hadded, halone, hregions, hvacant⟩ :=
    exists_text ⟨true, false, true⟩
  have hruns₁ : Runs (fun s r => r.OnSpaces s) s₀ [(.newSpace, true)] s₁ :=
    Runs.start.granted trivial hmade
  have hruns₂ := hruns₁.granted (r := .addRegion 0 textStart pageSize ⟨true, false, true⟩)
    ⟨sp₁, halone₁.object_eq⟩ hadded
  have hsound := hruns₂.sound (fun _ _ hr => hr.permitted) hboot.sound
  have hgrants : sp.grants textStart = some false :=
    AddressSpace.grants_of_last (congrArg List.getLast? hregions) (covers_text _)
  obtain ⟨s, hfault, -, halone', -⟩ := halone.fault_done hsound (by decide) hvacant
    (a := textStart) (AddressSpace.reaches_iff.2 ⟨by decide, hgrants ▸ Option.some_ne_none _⟩)
  have hruns := hruns₂.granted (r := .fault (some 0) 0 textStart) ⟨sp, halone.object_eq⟩ hfault
  refine ⟨s₀, s, sp, hboot, hruns, halone'.object_eq, ?_, runs_sanctioned hboot hruns⟩
  obtain ⟨k', writable, e, rfl, -, hmaps⟩ :=
    (hsound.faultAt_meets halone.object_eq 0 textStart).of_done hfault
  show (sp.table.entryIn k'.ram textStart).isValid = true
  rw [hmaps.entryIn_eq]
  exact hmaps.isValid

end Session

end SoftPaging
