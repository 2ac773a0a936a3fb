import Mathlib
import SoftPaging.Proofs.Session.Rejection

/-!
# What becomes of a space

A request about one space leaves a session that differs from the one before in little more than that
space. Defining a region adds a region and nothing else; beginning a load touches no memory; ending it
seals pages and invalidates the TLB; a new space shows nothing.

On a machine that was just set up this gives the sessions that examples start from: one space with
nothing resident (`Alone`), and a fault in it that is serviced (`Alone.fault_done`).
-/

namespace SoftPaging

open Outcome

namespace Session

variable {p : FramePool} {s s' s₀ : Session} {o : Object} {i : Nat} {sp : AddressSpace}

theorem object_put_self (ho : s.object i = some o) (o'? : Option Object) :
    (s.put i o'?).object i = o'? := by
  obtain ⟨hi, -⟩ := List.getElem?_eq_some_iff.1 (object_eq_some.1 ho)
  unfold object put
  rw [List.getElem?_set_self hi, Option.join_some]

theorem object_keep_self (s : Session) (o : Object) :
    (s.keep o).object s.objects.length = some o := by
  unfold object Session.keep
  rw [List.getElem?_concat_length, Option.join_some]

theorem object_keep_of_ne {j : Nat} (hj : j ≠ s.objects.length) :
    (s.keep o).object j = s.object j := by
  unfold object Session.keep
  rcases Nat.lt_or_gt_of_ne hj with hlt | hgt
  · rw [List.getElem?_append_left hlt]
  · rw [List.getElem?_eq_none (Nat.le_of_lt hgt), List.getElem?_eq_none]
    rw [List.length_append]
    exact hgt

/-- There is one space at a place. -/
theorem space_unique {sp' : AddressSpace} (ho : s.object i = some (.space sp))
    (ho' : s.object i = some (.space sp')) : sp = sp' :=
  Object.space.inj (Option.some.inj (ho.symm.trans ho'))

/-- The objects are the same whatever is done to the MMU. -/
theorem object_mmu (s : Session) (mmu : Mmu TlbBuffer) (i : Nat) :
    ({ s with mmu := mmu } : Session).object i = s.object i := rfl

theorem Sound.withMmu (h : s.Sound p) (mmu : Mmu TlbBuffer) : Sound p { s with mmu := mmu } :=
  ⟨h.holds, h.good⟩

/-- A region is added, and nothing else is different but the log. -/
theorem Sound.addRegion_meets (h : s.Sound p) (ho : s.object i = some (.space sp))
    (start : VirtualAddress) (size : Nat) (permissions : Permissions) :
    ((perform (.addRegion i start size permissions)).run s).Meets
      (fun _ s' => ∃ sp' past e,
        s' = (s.withKernel (s.kernel.push e)).put i (some (.space sp')) ∧ sp'.Sound ∧
          sp'.table = sp.table ∧ sp'.regions = sp.regions ++ [.spanning start past permissions] ∧
            AddressSpace.regionEnd? start.pageBase.val start.pageOffset size userStackTop = some past)
      (fun _ s' => (∃ e, s' = s.withKernel (s.kernel.push e)) ∧
        AddressSpace.regionEnd? start.pageBase.val start.pageOffset size userStackTop = none)
      never := by
  have hrun : (perform (.addRegion i start size permissions)).run s = _ := run_onSpace ho _
  rw [hrun]
  refine Outcome.Meets.andThen (op_meets (Transition.Meets.bind
    (((h.take ho).2.1.addRegion start size permissions s.kernel).mono (fun _ _ hQ => hQ) ?_
      fun _ hH => hH) ?_))
  · rintro cause _ ⟨-, ⟨e, rfl⟩, hend⟩
    exact ⟨⟨e, rfl⟩, hend⟩
  · rintro sp' _ ⟨hsound, htable, ⟨past, hregions, hend⟩, e, rfl⟩
    exact .done (.done ⟨sp', past, e, rfl, hsound, htable, hregions, hend⟩)

theorem Sound.addRegion_done (h : s.Sound p) (ho : s.object i = some (.space sp))
    (start : VirtualAddress) (size : Nat) (permissions : Permissions) {past : Nat}
    (hend : AddressSpace.regionEnd? start.pageBase.val start.pageOffset size userStackTop =
      some past) :
    ∃ sp' e, (perform (.addRegion i start size permissions)).run s =
        .done () ((s.withKernel (s.kernel.push e)).put i (some (.space sp'))) ∧
      sp'.table = sp.table ∧ sp'.regions = sp.regions ++ [.spanning start past permissions] := by
  have hmeets := h.addRegion_meets ho start size permissions
  cases hrun : (perform (.addRegion i start size permissions)).run s with
  | done answer s' =>
    obtain ⟨sp', past', e, rfl, -, htable, hregions, hend'⟩ := hmeets.of_done hrun
    rw [hend] at hend'
    obtain rfl := Option.some.inj hend'
    exact ⟨sp', e, rfl, htable, hregions⟩
  | refused cause s' =>
    rw [hend] at hmeets
    cases (hmeets.of_refused hrun).2
  | halted cause => exact (hmeets.of_halted hrun).elim

theorem run_beginLoad (ho : s.object i = some (.space sp)) :
    (perform (.beginLoad i)).run s = .done () (s.put i (some (.space sp.beginLoad))) := by
  have hrun : (perform (.beginLoad i)).run s = _ := run_onSpace ho _
  rw [hrun]
  rfl

/-- After a load was ended: the pages that are not to be written to are sealed, the TLB is invalid,
and the other objects are where they were. -/
structure Sealed (s : Session) (i : Nat) (sp : AddressSpace) (s' : Session) : Prop where
  object_eq : s'.object i = some (.space sp.restored)
  others_eq : ∀ j, j ≠ i → s'.object j = s.object j
  mmu_eq : s'.mmu = s.mmu.flush
  page_eq : ∀ j j', (sp.table.mapIn s'.kernel.ram).page j j' =
    ((sp.table.mapIn s.kernel.ram).page j j').map fun pg =>
      if sp.restored.seals (pageAt j j') then pg.readOnly else pg
  slot_eq : ∀ j, (sp.table.mapIn s'.kernel.ram j).map Leaf.frame =
    (sp.table.mapIn s.kernel.ram j).map Leaf.frame

/-- Ending a load is never refused. -/
theorem Sound.endLoad_done (h : s.Sound p) (ho : s.object i = some (.space sp)) :
    ∃ s', (perform (.endLoad i)).run s = .done () s' ∧ s.Sealed i sp s' := by
  have hheld : sp.table.Held s.kernel p (sp.table.mapIn s.kernel.ram) (s.put i none).owned :=
    h.held ho rfl
  obtain ⟨k', hend, hheld', -⟩ := AddressSpace.endLoad_done (h.take ho).2.1 hheld s.mmu
  have hrun : (perform (.endLoad i)).run s = _ := run_onSpace ho _
  rw [run_op_of_done hend, andThen_done] at hrun
  refine ⟨_, hrun, ?_, fun j hj => ?_, rfl, fun j j' => ?_, fun j => ?_⟩
  · rw [object_mmu, object_put_self (s := s.withKernel k') ho]
  · rw [object_mmu, object_put_of_ne (s := s.withKernel k') (Ne.symm hj)]
    rfl
  · show (sp.table.mapIn k'.ram).page j j' = _
    rw [hheld'.shows.mapIn_eq]
    exact AddressSpace.page_sealed (s := sp.restored) hheld.shows j j'
  · show (sp.table.mapIn k'.ram j).map Leaf.frame = _
    rw [hheld'.shows.mapIn_eq, TableMap.frame_protectAll]

/-! ## A space alone -/

/-- An address space is all there is. -/
structure Alone (sp : AddressSpace) (s : Session) : Prop where
  objects_eq : s.objects = [some (.space sp)]
  blocks_eq : s.blocks = []

namespace Alone

theorem object_eq (halone : s.Alone sp) : s.object 0 = some (.space sp) :=
  object_first halone.objects_eq

theorem withKernel (halone : s.Alone sp) (k' : Kernel) : (s.withKernel k').Alone sp :=
  ⟨halone.objects_eq, halone.blocks_eq⟩

theorem withMmu (halone : s.Alone sp) (mmu : Mmu TlbBuffer) : Alone sp { s with mmu := mmu } :=
  ⟨halone.objects_eq, halone.blocks_eq⟩

theorem put (halone : s.Alone sp) (sp' : AddressSpace) :
    (s.put 0 (some (.space sp'))).Alone sp' := by
  refine ⟨?_, halone.blocks_eq⟩
  show s.objects.set 0 (some (.space sp')) = _
  rw [halone.objects_eq]
  rfl

theorem owned_eq (halone : s.Alone sp) :
    s.owned = sp.table.blocks (sp.table.mapIn s.kernel.ram) := by
  unfold owned objectBlocks
  rw [halone.blocks_eq, halone.objects_eq, List.nil_append, List.flatMap_singleton]
  exact Object.blocksIn_of_table? (o := .space sp) rfl _

/-- What a space that is alone does not own is free. -/
theorem freeFrames_eq (halone : s.Alone sp) (h : s.Sound p) : p.freeFrames s.kernel.ram =
    p.total - p.reserved - (1 + frameCount (sp.table.mapIn s.kernel.ram).blocks) := by
  rw [h.holds_owned.represents.freeFrames_eq h.holds.sound.reserved_lt.le, halone.owned_eq]
  rfl

end Alone

/-- A space in which nothing is resident can be made alone on a small machine. -/
theorem exists_alone {n : Nat} (hlarge : 1 < n) (hle : n ≤ pageSize) :
    ∃ (s₀ s : Session) (sp : AddressSpace), s₀.Booted (pages n) ∧ s₀.mmu.tlb = .empty ∧
      (perform .newSpace).run s₀ = .done () s ∧ s.Sound (pages n) ∧ s.mmu = s₀.mmu ∧
        s.Alone sp ∧ sp.regions = [] ∧ sp.table.mapIn s.kernel.ram = .vacant := by
  obtain ⟨s₀, hboot, hempty⟩ : ∃ s₀ : Session, s₀.Booted (pages n) ∧ s₀.mmu.tlb = .empty := by
    obtain ⟨s₀, hboot⟩ := exists_booted hlarge hle
    exact ⟨{ s₀ with mmu := ⟨.empty, .initial⟩ },
      ⟨hboot.kernel_eq, hboot.blocks_eq, hboot.objects_eq⟩, rfl⟩
  have hfree : (pages n).freeFrames s₀.kernel.ram = n - 1 := hboot.freeFrames_eq
  obtain ⟨s, -, hmade, -⟩ := hboot.sound.newSpace_done (by omega)
  obtain ⟨sp, k', rfl, hregions, hvacant, -⟩ := hboot.sound.newSpace_meets.of_done hmade
  refine ⟨s₀, _, sp, hboot, hempty, hmade, ?_, rfl, ⟨?_, hboot.blocks_eq⟩, hregions, hvacant⟩
  · exact ((hboot.sound.perform_meets (r := .newSpace) trivial).of_done hmade).sound
  · show s₀.objects ++ [some (.space sp)] = _
    rw [hboot.objects_eq, List.nil_append]

/-- The first fault of a space that is alone takes two frames, for a second-level table and for the
page. -/
theorem Alone.fault_done {n : Nat} (halone : s.Alone sp) (h : s.Sound (pages n)) (hroom : 4 ≤ n)
    (hvacant : sp.table.mapIn s.kernel.ram = .vacant) {a : VirtualAddress}
    (hreach : sp.Reaches a) :
    ∃ s', (perform (.fault (some 0) 0 a)).run s = .done () s' ∧ s'.Sound (pages n) ∧
      s'.Alone sp ∧ frameCount (sp.table.mapIn s'.kernel.ram).blocks = 2 := by
  have hfree : (pages n).freeFrames s.kernel.ram = n - 1 - 1 := by
    rw [halone.freeFrames_eq h, hvacant, TableMap.blocks_vacant]
    rfl
  have hneed := h.need_of_vacant halone.object_eq hvacant a
  obtain ⟨s', hrun, -⟩ := h.fault_done halone.object_eq Nat.zero_lt_two hreach (by omega)
  obtain ⟨k', writable, e, rfl, -, hmaps⟩ := (h.faultAt_meets halone.object_eq 0 a).of_done hrun
  refine ⟨_, hrun, ?_, ⟨halone.objects_eq, halone.blocks_eq⟩, ?_⟩
  · exact ((h.perform_meets (r := .fault (some 0) 0 a) trivial).of_done hrun).sound
  · obtain ⟨f, hpage⟩ := hmaps.maps.mapped
    have hle := hmaps.maps.frameCount_le
    rw [hvacant, TableMap.blocks_vacant] at hle
    exact Nat.le_antisymm hle (TableMap.two_le_frameCount hpage)

end Session

end SoftPaging
