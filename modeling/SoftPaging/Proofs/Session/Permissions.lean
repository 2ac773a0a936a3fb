import Mathlib
import SoftPaging.Proofs.Session.SpaceSteps

/-!
# Write permission in a session

A machine that makes address spaces, loads them, services their faults and copies them keeps each of
its spaces disciplined (`Ruled`): the step is a case analysis over the requests, and all other spaces
are left alone. Whether a load is in progress is not written down anywhere in the machine, so a run
carries along the set of places where one is; a copy takes over what its source is at.

What comes out is a statement about pages when no load is in progress: a page may be written to just
when the newest region that contains it says so, or when there is none and it belongs to the stack
(`loads_writable`). A region that is defined over a page that is resident already would break this, so
the runs have none.
-/

namespace SoftPaging

open Outcome

/-! ## What is asked for -/

namespace Request

/-- The request makes an address space or works on one that is there. -/
def OnSpaces (s : Session) : Request → Prop
  | newSpace | fault none _ _ => True
  | addRegion i _ _ _ | beginLoad i | endLoad i | fault (some i) _ _ | copySpace i =>
    ∃ sp, s.object i = some (.space sp)
  | _ => False

/-- Where a load is in progress after the request was granted. -/
def loading (s : Session) (places : Set Nat) : Request → Set Nat
  | beginLoad i => insert i places
  | endLoad i => places \ {i}
  | copySpace i => places ∪ {j | i ∈ places ∧ j = s.objects.length}
  | _ => places

/-- A region that the request defined contains no address that was resident. -/
def Misses (s s' : Session) : Request → Prop
  | addRegion i _ _ _ => ∀ sp sp' r a, s.object i = some (.space sp) →
      s'.object i = some (.space sp') → sp'.regions.getLast? = some r →
        (sp.table.entryIn s.kernel.ram a).isValid = true → r.contains a = .ok false
  | _ => True

theorem OnSpaces.permitted {s : Session} {p : FramePool} {r : Request} (h : r.OnSpaces s) :
    r.Permitted p s := by
  cases r <;> trivial

end Request

/-- What was done to a machine that runs address spaces, with the places where a load is in
progress. -/
inductive Session.Loads (p : FramePool) (s₀ : Session) : Set Nat → Session → Prop
  | start : Loads p s₀ ∅ s₀
  | granted {places s r s'} (h : Loads p s₀ places s) (hr : r.OnSpaces s)
      (hrun : (Session.perform r).run s = .done () s') (hmisses : r.Misses s s') :
      Loads p s₀ (r.loading s places) s'
  | refused {places s r cause s'} (h : Loads p s₀ places s) (hr : r.OnSpaces s)
      (hrun : (Session.perform r).run s = .refused cause s') : Loads p s₀ places s'

namespace AddressSpace

/-- A page at the address may be written to: the newest region that contains it says so, or there is
none and the address belongs to the stack. -/
def MayWrite (s : AddressSpace) (a : VirtualAddress) : Prop :=
  (∃ r, s.regionAt a = .ok (some r) ∧ r.permissions.writable = true) ∨
    (s.regionAt a = .ok none ∧ s.inStackWindow a = .ok true)

theorem Sound.mayWrite_iff {s : AddressSpace} (h : s.Sound) (a : VirtualAddress) :
    s.MayWrite a ↔ s.grants a = some true := by
  unfold MayWrite grants
  rw [h.regionAt_eq, h.inStackWindow_eq]
  cases s.newestAt a with
  | some r => simp
  | none => simp

end AddressSpace

namespace Session

variable {p : FramePool} {s s' s₀ : Session} {places places' : Set Nat} {i j : Nat}
  {sp : AddressSpace} {r : Request}

theorem Loads.sound (h : Loads p s₀ places s) (hs₀ : s₀.Sound p) : s.Sound p := by
  induction h with
  | start => exact hs₀
  | granted _ hr hrun _ ih => exact ((ih.perform_meets hr.permitted).of_done hrun).sound
  | refused _ hr hrun ih => exact ((ih.perform_meets hr.permitted).of_refused hrun).sound

/-- A request that is granted makes a space or works on one. -/
theorem Sound.steps (hsound : s.Sound p) (hr : r.OnSpaces s)
    (hrun : (perform r).run s = .done () s') : s.Steps r s' := by
  cases r with
  | newSpace => exact hsound.steps_newSpace hrun
  | addRegion i start size permissions =>
    obtain ⟨sp, ho⟩ := hr
    exact hsound.steps_addRegion ho hrun
  | beginLoad i =>
    obtain ⟨sp, ho⟩ := hr
    exact hsound.steps_beginLoad ho hrun
  | endLoad i =>
    obtain ⟨sp, ho⟩ := hr
    exact hsound.steps_endLoad ho hrun
  | fault i? code a =>
    cases i? with
    | none => exact ((hsound.faultNowhere_meets code a).of_done hrun).elim
    | some i =>
      obtain ⟨sp, ho⟩ := hr
      exact hsound.steps_fault ho hrun
  | copySpace i =>
    obtain ⟨sp, ho⟩ := hr
    exact hsound.steps_copySpace ho hrun
  | _ => exact hr.elim

/-- A request that is refused changes no space. -/
theorem Sound.hasSpace_of_refused (hsound : s.Sound p) (hr : r.OnSpaces s) {cause : Refusal}
    (hrun : (perform r).run s = .refused cause s') {m : TableMap} (hspace : s'.HasSpace i sp m) :
    s.HasSpace i sp m := by
  cases r with
  | newSpace =>
    obtain ⟨⟨e, rfl⟩, -⟩ := hsound.newSpace_meets.of_refused hrun
    exact ⟨hspace.object_eq, hspace.mapIn_eq⟩
  | addRegion j start size permissions =>
    obtain ⟨sp, ho⟩ := hr
    obtain ⟨⟨e, rfl⟩, -⟩ := (hsound.addRegion_meets ho start size permissions).of_refused hrun
    exact ⟨hspace.object_eq, hspace.mapIn_eq⟩
  | beginLoad j =>
    obtain ⟨sp, ho⟩ := hr
    rw [run_beginLoad ho] at hrun
    cases hrun
  | endLoad j =>
    obtain ⟨sp, ho⟩ := hr
    obtain ⟨k', hdone, -⟩ := hsound.endLoad_done ho
    rw [hdone] at hrun
    cases hrun
  | fault j? code a => exact ((hsound.fault_meets j? code a).of_refused hrun).hasSpace hspace
  | copySpace j =>
    obtain ⟨sp, ho⟩ := hr
    exact ((hsound.copySpace_meets ho).of_refused hrun).2.1.hasSpace hspace
  | _ => exact hr.elim

/-! ## The invariant -/

/-- Each space is disciplined, as one that is being loaded or as one that is not. -/
def Ruled (places : Set Nat) (s : Session) : Prop :=
  ∀ i sp, s.object i = some (.space sp) →
    sp.Disciplined (i ∈ places) (sp.table.mapIn s.kernel.ram)

theorem ruled_iff : s.Ruled places ↔ s.EachSpace fun i sp m => sp.Disciplined (i ∈ places) m := by
  constructor
  · intro h i sp m hspace
    rw [← hspace.mapIn_eq]
    exact h i sp hspace.object_eq
  · intro h i sp ho
    exact h i sp _ (hasSpace ho)

namespace Ruled

variable (h : s.Ruled places)
include h

/-- What a request yields is disciplined, as one that is being loaded or as one that is not. -/
theorem granted (hsound : s.Sound p) (hr : r.OnSpaces s) (hrun : (perform r).run s = .done () s')
    (hmisses : r.Misses s s') : s'.Ruled (r.loading s places) := by
  rw [ruled_iff] at h ⊢
  refine EachSpace.step h (hsound.steps hr hrun) ?_
  intro i sp m hyields hspace'
  cases hyields with
  | newSpace hregions => exact ⟨.of_vacant hregions, fun j _ sp m => id⟩
  | addRegion hspace hsound' hregions =>
    rename_i start size permissions sp₀ past
    refine ⟨(h _ _ _ hspace).addRegion hregions rfl fun slot entry pg hpg => ?_,
      fun j _ sp m => id⟩
    have hlast : sp.regions.getLast? = some (.spanning start past permissions) := by
      rw [hregions, List.getLast?_concat]
    have hvalid : (sp₀.table.entryIn s.kernel.ram (pageAt slot entry)).isValid = true := by
      have hshows := (hsound.held hspace.object_eq (t := sp₀.table) rfl).shows
      rw [hshows.entryIn_eq, hspace.mapIn_eq, Address.directoryIndex_pageAt,
        Address.tableIndex_pageAt, hpg]
      exact pg.isValid_entry
    have hcontains := hmisses sp₀ sp _ _ hspace.object_eq hspace'.object_eq hlast hvalid
    rw [Region.contains_eq (hsound'.regions_sound _ (List.mem_of_getLast? hlast))] at hcontains
    exact Except.ok.inj hcontains
  | beginLoad hspace =>
    exact ⟨(h _ _ _ hspace).beginLoad (Set.mem_insert i places),
      fun j _ sp m hj => hj.mono (Set.mem_insert_of_mem i)⟩
  | endLoad hspace hpage hslot =>
    exact ⟨(h _ _ _ hspace).endLoad hpage, fun j hj sp m hd => hd.mono fun hplace => ⟨hplace, hj⟩⟩
  | fault hspace hsound' hgrants hmaps =>
    exact ⟨(h _ _ _ hspace).maps hsound' hgrants hmaps, fun j _ sp m => id⟩
  | copySpace hspace hcopied hslot hpage =>
    rw [hcopied]
    exact ⟨((h _ _ _ hspace).withTable sp.table hpage).mono fun hplace => .inr ⟨hplace, rfl⟩,
      fun j _ sp m hj => hj.mono .inl⟩

theorem refused (hsound : s.Sound p) (hr : r.OnSpaces s) {cause : Refusal}
    (hrun : (perform r).run s = .refused cause s') : s'.Ruled places := by
  rw [ruled_iff] at h ⊢
  intro i sp m hspace
  exact h i sp m (hsound.hasSpace_of_refused hr hrun hspace)

/-- Where no load is in progress, the pages that may be written to are those that should be. -/
theorem isDirty_iff (hsound : s.Sound p) (ho : s.object i = some (.space sp)) (hi : i ∉ places)
    {a : VirtualAddress} (hvalid : (sp.table.entryIn s.kernel.ram a).isValid = true) :
    (sp.table.entryIn s.kernel.ram a).isDirty = true ↔ sp.MayWrite a := by
  have hspace : sp.Sound := (hsound.take ho).2.1
  rw [(hsound.held ho (t := sp.table) rfl).shows.entryIn_eq] at hvalid ⊢
  rw [hspace.mayWrite_iff]
  cases hpg : (sp.table.mapIn s.kernel.ram).page a.directoryIndex a.tableIndex with
  | none =>
    rw [hpg, entryOf_none, PageEntry.isValid_empty] at hvalid
    cases hvalid
  | some pg =>
    rw [entryOf_some, Page.isDirty_entry]
    exact (h i sp ho).writable_iff hspace hi hpg

end Ruled

theorem Loads.ruled (h : Loads p s₀ places s) (hboot : s₀.Booted p) : s.Ruled places := by
  induction h with
  | start => exact ruled_iff.2 hboot.eachSpace
  | granted h hr hrun hmisses ih => exact ih.granted (h.sound hboot.sound) hr hrun hmisses
  | refused h hr hrun ih => exact ih.refused (h.sound hboot.sound) hr hrun

/-! ## A small machine -/

/-- Where the text of a program starts. -/
def textStart : VirtualAddress := ⟨0x400000, by decide⟩

/-- The region of a text of one page, which is not to be written to. -/
def textRegion : Region := .spanning textStart 0x401000 ⟨true, false, true⟩

theorem covers_text (permissions : Permissions) :
    (Region.spanning textStart 0x401000 permissions).covers textStart = true :=
  show textRegion.covers textStart = true by decide

theorem regionEnd?_text : AddressSpace.regionEnd? textStart.pageBase.val textStart.pageOffset
    pageSize userStackTop = some 0x401000 := by decide

/-- On eight pages of RAM, a space is made, in which nothing is resident, and the text of its program
is defined. -/
theorem exists_text (permissions : Permissions) : ∃ (s₀ s₁ s : Session) (sp₁ sp : AddressSpace),
    s₀.Booted (pages 8) ∧ (perform .newSpace).run s₀ = .done () s₁ ∧ s₁.Alone sp₁ ∧
      (∀ a, (sp₁.table.entryIn s₁.kernel.ram a).isValid = false) ∧
        (perform (.addRegion 0 textStart pageSize permissions)).run s₁ = .done () s ∧
          s.Alone sp ∧ sp.regions = [.spanning textStart 0x401000 permissions] ∧
            sp.table.mapIn s.kernel.ram = .vacant := by
  obtain ⟨s₀, s₁, sp₁, hboot, -, hmade, hsound₁, -, halone₁, hregions₁, hvacant⟩ :=
    exists_alone (n := 8) (by decide) (by decide)
  obtain ⟨sp, e, hadded, htable, hregions⟩ := hsound₁.addRegion_done halone₁.object_eq
    textStart pageSize permissions regionEnd?_text
  rw [hregions₁, List.nil_append] at hregions
  refine ⟨s₀, s₁, _, sp₁, sp, hboot, hmade, halone₁, fun a => ?_, hadded,
    (halone₁.withKernel (s₁.kernel.push e)).put sp, hregions, ?_⟩
  · rw [(hsound₁.held halone₁.object_eq (t := sp₁.table) rfl).shows.entryIn_eq, hvacant,
      TableMap.page_of_closed rfl, entryOf_none, PageEntry.isValid_empty]
  · rw [← hvacant, ← htable]
    rfl

/-- Then a load is begun. -/
theorem exists_loading : ∃ (s₀ s : Session) (sp : AddressSpace), s₀.Booted (pages 8) ∧
    Loads (pages 8) s₀ {0} s ∧ s.Alone sp ∧ sp.regions = [textRegion.allowWrites] ∧
      sp.table.mapIn s.kernel.ram = .vacant := by
  obtain ⟨s₀, s₁, s, sp₁, sp, hboot, hmade, halone₁, hnone, hadded, halone, hregions, hvacant⟩ :=
    exists_text ⟨true, false, true⟩
  have hnew : Loads (pages 8) s₀ ∅ s₁ := .granted (r := .newSpace) .start trivial hmade trivial
  have hdefined := hnew.granted (r := .addRegion 0 textStart pageSize ⟨true, false, true⟩)
    ⟨sp₁, halone₁.object_eq⟩ hadded fun sp' _ _ a ho _ _ hvalid => by
      obtain rfl := space_unique halone₁.object_eq ho
      rw [hnone a] at hvalid
      cases hvalid
  have hloading : Loads (pages 8) s₀ (insert 0 ∅) _ := hdefined.granted (r := .beginLoad 0)
    ⟨sp, halone.object_eq⟩ (run_beginLoad halone.object_eq) trivial
  rw [insert_empty_eq] at hloading
  refine ⟨s₀, _, sp.beginLoad, hboot, hloading, halone.put sp.beginLoad, ?_, hvacant⟩
  unfold AddressSpace.beginLoad
  rw [hregions]
  rfl

/-- The page that is touched then may be written to. -/
theorem exists_touched : ∃ (s₀ s : Session) (sp : AddressSpace), s₀.Booted (pages 8) ∧
    Loads (pages 8) s₀ {0} s ∧ s.object 0 = some (.space sp) ∧
      sp.regions = [textRegion.allowWrites] ∧
        (sp.table.entryIn s.kernel.ram textStart).isValid = true ∧
          (sp.table.entryIn s.kernel.ram textStart).isDirty = true := by
  obtain ⟨s₀, s₁, sp, hboot, hloads, halone, hregions, hvacant⟩ := exists_loading
  have hsound := hloads.sound hboot.sound
  have hgrants : sp.grants textStart = some true :=
    AddressSpace.grants_of_last (congrArg List.getLast? hregions) (by decide)
  obtain ⟨s, hfault, -, halone', -⟩ := halone.fault_done hsound (by decide) hvacant
    (a := textStart) (AddressSpace.reaches_iff.2 ⟨by decide, hgrants ▸ Option.some_ne_none _⟩)
  have hloads' : Loads (pages 8) s₀ {0} s :=
    hloads.granted (r := .fault (some 0) 0 textStart) ⟨_, halone.object_eq⟩ hfault trivial
  obtain ⟨k', writable, entry, rfl, hwritable, hmaps⟩ :=
    (hsound.faultAt_meets halone.object_eq 0 textStart).of_done hfault
  refine ⟨s₀, _, sp, hboot, hloads', halone'.object_eq, hregions, ?_⟩
  show (sp.table.entryIn k'.ram textStart).isValid = true ∧
    (sp.table.entryIn k'.ram textStart).isDirty = true
  rw [hmaps.entryIn_eq]
  refine ⟨hmaps.isValid, ?_⟩
  have hnone : (sp.table.mapIn s₁.kernel.ram).page textStart.directoryIndex
      textStart.tableIndex = none := by
    rw [hvacant]
    rfl
  rw [hgrants] at hwritable
  rw [hmaps.isDirty_of_none hnone]
  exact (Option.some.inj hwritable).symm

/-! ## Write permission -/

/-- The end of a load: the pages that were resident still are, and they may be written to just when
they should be. -/
def Settles (s : Session) (i : Nat) (sp : AddressSpace) : Prop :=
  ∃ s' sp', (perform (.endLoad i)).run s = .done () s' ∧ s'.object i = some (.space sp') ∧
    ∀ a, (sp.table.entryIn s.kernel.ram a).isValid = true →
      (sp'.table.entryIn s'.kernel.ram a).isValid = true ∧
        ((sp'.table.entryIn s'.kernel.ram a).isDirty = true ↔ sp'.MayWrite a)

/-- Wherever no load is in progress, a page that is resident may be written to just when the newest
region that contains it is writable, or there is none and the page belongs to the stack. In
particular the end of a load brings this about, whatever was touched while it was in progress. -/
theorem loads_writable (hboot : s₀.Booted p) (hloads : Loads p s₀ places s) :
    (∀ i sp a, s.object i = some (.space sp) → i ∉ places →
      (sp.table.entryIn s.kernel.ram a).isValid = true →
        ((sp.table.entryIn s.kernel.ram a).isDirty = true ↔ sp.MayWrite a)) ∧
      ∀ i sp, s.object i = some (.space sp) → s.Settles i sp := by
  have hsound := hloads.sound hboot.sound
  have hruled := hloads.ruled hboot
  refine ⟨fun i sp a ho hi => hruled.isDirty_iff hsound ho hi, fun i sp ho => ?_⟩
  obtain ⟨s', hrun, hsealed⟩ := hsound.endLoad_done ho
  have hsound' := ((hsound.perform_meets (r := .endLoad i) trivial).of_done hrun).sound
  refine ⟨s', sp.restored, hrun, hsealed.object_eq, fun a hvalid => ?_⟩
  have hresident : (sp.table.entryIn s'.kernel.ram a).isValid = true := by
    have hshows := (hsound'.held hsealed.object_eq (t := sp.table) rfl).shows
    rw [(hsound.held ho (t := sp.table) rfl).shows.entryIn_eq] at hvalid
    rw [hshows.entryIn_eq, hsealed.page_eq]
    cases hpg : (sp.table.mapIn s.kernel.ram).page a.directoryIndex a.tableIndex with
    | none =>
      rw [hpg, entryOf_none, PageEntry.isValid_empty] at hvalid
      cases hvalid
    | some pg =>
      rw [Option.map_some, entryOf_some]
      exact Page.isValid_entry _
  have hruled' := hruled.granted hsound (r := .endLoad i) ⟨sp, ho⟩ hrun trivial
  exact ⟨hresident, hruled'.isDirty_iff hsound' hsealed.object_eq (fun hi => hi.2 rfl) hresident⟩

/-- The page of a text may be written to while the text is loaded, and no longer when that is over. -/
theorem eight_pages_writable : ∃ (s₀ s s' : Session) (sp sp' : AddressSpace),
    s₀.Booted (pages 8) ∧ Loads (pages 8) s₀ {0} s ∧ s.object 0 = some (.space sp) ∧
      (sp.table.entryIn s.kernel.ram textStart).isDirty = true ∧
        (perform (.endLoad 0)).run s = .done () s' ∧ s'.object 0 = some (.space sp') ∧
          (sp'.table.entryIn s'.kernel.ram textStart).isValid = true ∧
            (sp'.table.entryIn s'.kernel.ram textStart).isDirty = false := by
  obtain ⟨s₀, s, sp, hboot, hloads, ho, hregions, hvalid, hdirty⟩ := exists_touched
  obtain ⟨s', sp', hrun, ho', hpages⟩ := (loads_writable hboot hloads).2 0 sp ho
  obtain ⟨hvalid', hiff⟩ := hpages textStart hvalid
  refine ⟨s₀, s, s', sp, sp', hboot, hloads, ho, hdirty, hrun, ho', hvalid', ?_⟩
  have hsound := hloads.sound hboot.sound
  obtain ⟨_, hrun', hsealed⟩ := hsound.endLoad_done ho
  obtain ⟨-, rfl⟩ := Outcome.done.inj (hrun'.symm.trans hrun)
  obtain rfl := space_unique hsealed.object_eq ho'
  have hgrants : sp.restored.grants textStart = some false := by
    have hrestored : sp.restored.regions = [textRegion] := congrArg (List.map Region.restore) hregions
    exact AddressSpace.grants_of_last (congrArg List.getLast? hrestored) (by decide)
  rw [Bool.eq_false_iff, ne_eq, hiff, ((hsound.take ho).2.1.restored).mayWrite_iff, hgrants]
  exact fun hfalse => by cases hfalse

end Session

end SoftPaging
