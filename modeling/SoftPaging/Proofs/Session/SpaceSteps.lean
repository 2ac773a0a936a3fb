import Mathlib
import SoftPaging.Proofs.Session.Duplication
import SoftPaging.Proofs.Session.Locality
import SoftPaging.Proofs.Space.Discipline

/-!
# Steps of the address spaces

A request that is made of an address space, and granted, makes a space or works on one, and leaves
all the others as they are. `Request.Yields` says for each such request which space and which table
are there afterwards. An invariant of the spaces of a machine needs no more than this: it has to hold
of what a request yields (`EachSpace.step`). A request that is refused changes no space at all.
-/

namespace SoftPaging

open Outcome

namespace Session

/-- There is an address space at a place, and its page table shows the map. -/
structure HasSpace (s : Session) (i : Nat) (sp : AddressSpace) (m : TableMap) : Prop where
  object_eq : s.object i = some (.space sp)
  mapIn_eq : sp.table.mapIn s.kernel.ram = m

end Session

/-- What a request that is granted makes of an address space: its place, the space that is there
afterwards, and what its page table shows. -/
inductive Request.Yields (s : Session) : Request → Nat → AddressSpace → TableMap → Prop
  | newSpace {sp} (hregions : sp.regions = []) : Yields s .newSpace s.objects.length sp .vacant
  | addRegion {i start size permissions sp sp' past m} (h : s.HasSpace i sp m) (hsound : sp'.Sound)
      (hregions : sp'.regions = sp.regions ++ [.spanning start past permissions]) :
      Yields s (.addRegion i start size permissions) i sp' m
  | beginLoad {i sp m} (h : s.HasSpace i sp m) : Yields s (.beginLoad i) i sp.beginLoad m
  | endLoad {i sp m m'} (h : s.HasSpace i sp m)
      (hpage : ∀ j j', m'.page j j' = (m.page j j').map fun pg =>
        if sp.restored.seals (pageAt j j') then pg.readOnly else pg)
      (hslot : ∀ j, (m' j).map Leaf.frame = (m j).map Leaf.frame) :
      Yields s (.endLoad i) i sp.restored m'
  | fault {i code a sp m m' writable} (h : s.HasSpace i sp m) (hsound : sp.Sound)
      (hgrants : sp.grants a = some writable)
      (hmaps : m.Maps a.directoryIndex a.tableIndex writable m') :
      Yields s (.fault (some i) code a) i sp m'
  | copySpace {i sp c m m'} (h : s.HasSpace i sp m) (hcopied : c = { sp with table := c.table })
      (hslot : ∀ j, (m' j).isSome = (m j).isSome)
      (hpage : ∀ j j', (m'.page j j').map Page.writable = (m.page j j').map Page.writable) :
      Yields s (.copySpace i) s.objects.length c m'

namespace Session

variable {p : FramePool} {s s' : Session} {r : Request} {i : Nat} {sp : AddressSpace}
  {P P' : Nat → AddressSpace → TableMap → Prop}

theorem hasSpace (ho : s.object i = some (.space sp)) :
    s.HasSpace i sp (sp.table.mapIn s.kernel.ram) := ⟨ho, rfl⟩

/-- One space is there as the request yields it, and the others were there before. -/
def Steps (s : Session) (r : Request) (s' : Session) : Prop :=
  ∃ i sp m, r.Yields s i sp m ∧ s'.HasSpace i sp m ∧
    ∀ j, j ≠ i → ∀ sp m, s'.HasSpace j sp m → s.HasSpace j sp m

/-- What is not different was there before. -/
theorem Unchanged.hasSpace {m : TableMap} (h : s.Unchanged p s') (hspace : s'.HasSpace i sp m) :
    s.HasSpace i sp m := by
  have ho : s.object i = some (.space sp) :=
    (object_congr h.objects_eq i).symm.trans hspace.object_eq
  have hmap := h.mapIn_eq (o := .space sp) (List.mem_of_getElem? (object_eq_some.1 ho)) rfl
  exact ⟨ho, hmap.symm.trans hspace.mapIn_eq⟩

/-! ## Each request -/

namespace Sound

variable (h : s.Sound p)
include h

/-- A request that works on one place leaves the spaces at the others as they are. -/
theorem others (hr : r.Permitted p s) (hrun : (perform r).run s = .done () s')
    (hobject : ∀ j, j ≠ i → s'.object j = s.object j) (halters : ∀ j, j ≠ i → ¬ r.Alters j) :
    ∀ j, j ≠ i → ∀ sp m, s'.HasSpace j sp m → s.HasSpace j sp m := by
  intro j hj sp m hspace
  have ho : s.object j = some (.space sp) := (hobject j hj).symm.trans hspace.object_eq
  have hleaves := (h.perform_leaves ho hr (halters j hj)).of_done hrun
  have hmap := hleaves.mapIn_eq (h.take ho).2 (t := sp.table) rfl
  exact ⟨ho, hmap.symm.trans hspace.mapIn_eq⟩

theorem steps_newSpace (hrun : (perform .newSpace).run s = .done () s') :
    s.Steps .newSpace s' := by
  obtain ⟨c, k', rfl, hregions, hvacant, -⟩ := h.newSpace_meets.of_done hrun
  refine ⟨_, c, _, .newSpace hregions, ⟨object_keep_self .., hvacant⟩, ?_⟩
  apply h.others (r := .newSpace) trivial hrun
  · intro j hj
    exact object_keep_of_ne hj
  · exact fun j _ => id

theorem steps_addRegion (ho : s.object i = some (.space sp)) {start : VirtualAddress} {size : Nat}
    {permissions : Permissions}
    (hrun : (perform (.addRegion i start size permissions)).run s = .done () s') :
    s.Steps (.addRegion i start size permissions) s' := by
  obtain ⟨sp', past, e, rfl, hsound, htable, hregions, -⟩ :=
    (h.addRegion_meets ho start size permissions).of_done hrun
  have hself := object_put_self (s := s.withKernel (s.kernel.push e)) ho (some (.space sp'))
  refine ⟨i, sp', _, .addRegion (hasSpace ho) hsound hregions, ⟨hself, ?_⟩, ?_⟩
  · rw [htable]
    rfl
  apply h.others (r := .addRegion i start size permissions) trivial hrun
  · intro j hj
    exact object_put_of_ne (s := s.withKernel (s.kernel.push e)) (Ne.symm hj)
  · intro j hj
    exact Ne.symm hj

theorem steps_beginLoad (ho : s.object i = some (.space sp))
    (hrun : (perform (.beginLoad i)).run s = .done () s') : s.Steps (.beginLoad i) s' := by
  have hdone := (run_beginLoad ho).symm.trans hrun
  obtain ⟨-, rfl⟩ := Outcome.done.inj hdone
  refine ⟨i, _, _, .beginLoad (hasSpace ho), ⟨object_put_self ho _, rfl⟩, ?_⟩
  apply h.others (r := .beginLoad i) trivial hrun
  · intro j hj
    exact object_put_of_ne (Ne.symm hj)
  · intro j hj
    exact Ne.symm hj

theorem steps_endLoad (ho : s.object i = some (.space sp))
    (hrun : (perform (.endLoad i)).run s = .done () s') : s.Steps (.endLoad i) s' := by
  obtain ⟨_, hdone, hsealed⟩ := h.endLoad_done ho
  obtain ⟨-, rfl⟩ := Outcome.done.inj (hdone.symm.trans hrun)
  refine ⟨i, _, _, .endLoad (hasSpace ho) hsealed.page_eq hsealed.slot_eq,
    ⟨hsealed.object_eq, rfl⟩, ?_⟩
  apply h.others (r := .endLoad i) trivial hrun hsealed.others_eq
  intro j hj
  exact Ne.symm hj

theorem steps_fault (ho : s.object i = some (.space sp)) {code : Nat} {a : VirtualAddress}
    (hrun : (perform (.fault (some i) code a)).run s = .done () s') :
    s.Steps (.fault (some i) code a) s' := by
  obtain ⟨k', writable, e, rfl, hgrants, hmaps⟩ := (h.faultAt_meets ho code a).of_done hrun
  refine ⟨i, sp, _, .fault (hasSpace ho) (h.take ho).2.1 hgrants hmaps.maps, ⟨ho, rfl⟩, ?_⟩
  apply h.others (r := .fault (some i) code a) trivial hrun
  · exact fun j _ => rfl
  · intro j hj heq
    exact hj (Option.some.inj heq).symm

theorem steps_copySpace (ho : s.object i = some (.space sp))
    (hrun : (perform (.copySpace i)).run s = .done () s') : s.Steps (.copySpace i) s' := by
  obtain ⟨⟨c, ⟨k', rfl⟩, hcopied, rest, m', -, hclone⟩, -⟩ :=
    (h.copySpace_meets ho).of_done hrun
  refine ⟨_, c, m', .copySpace (hasSpace ho) hcopied hclone.slots hclone.writable_page,
    ⟨object_keep_self .., hclone.held.shows.mapIn_eq⟩, ?_⟩
  apply h.others (r := .copySpace i) trivial hrun
  · intro j hj
    exact object_keep_of_ne hj
  · exact fun j _ => id

end Sound

/-! ## Invariants of the spaces -/

/-- Each address space and its map have the property. -/
def EachSpace (P : Nat → AddressSpace → TableMap → Prop) (s : Session) : Prop :=
  ∀ i sp m, s.HasSpace i sp m → P i sp m

namespace EachSpace

variable (h : s.EachSpace P)
include h

/-- A property that what the request yields has, and that the spaces at other places keep. -/
theorem step (hstep : s.Steps r s') (hyields : ∀ i sp m, r.Yields s i sp m → s'.HasSpace i sp m →
      P' i sp m ∧ ∀ j, j ≠ i → ∀ sp m, P j sp m → P' j sp m) : s'.EachSpace P' := by
  obtain ⟨i, sp, m, hmade, hspace, hothers⟩ := hstep
  obtain ⟨hthere, hkeep⟩ := hyields i sp m hmade hspace
  intro j sp' m' hspace'
  by_cases hj : j = i
  · subst hj
    obtain rfl := space_unique hspace.object_eq hspace'.object_eq
    rw [← hspace'.mapIn_eq, hspace.mapIn_eq]
    exact hthere
  · exact hkeep j hj sp' m' (h j sp' m' (hothers j hj sp' m' hspace'))

end EachSpace

theorem Booted.eachSpace (hboot : s.Booted p) : s.EachSpace P := by
  intro i sp m hspace
  have hget := object_eq_some.1 hspace.object_eq
  rw [hboot.objects_eq] at hget
  cases hget

end Session

end SoftPaging
