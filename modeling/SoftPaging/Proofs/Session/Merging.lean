import Mathlib
import SoftPaging.Proofs.Paging.Merging
import SoftPaging.Proofs.Session.Others
import SoftPaging.Proofs.Session.SpaceSteps

/-!
# Merging page tables in a session

One page table is copied into another that may have slots and pages of its own, as long as no page is
resident in both. Whether it is granted is a matter of the free frames alone, and when memory runs out
the target has got the first pages of the source, each of them whole (`copyTable_merges`).

Whatever the target has then, it has in frames of its own, and gives all of it back when it is released
(`Merges.released`).
-/

namespace SoftPaging

open Outcome

namespace Session

variable {p : FramePool} {s s' s₀ : Session} {trace : List (Request × Bool)} {i target : Nat}
  {o o' : Object} {t u : PageTable} {xs : List (VirtualAddress × PageEntry)}

/-! ## Giving an object back -/

/-- Giving an object back frees the frames that it owns, and no others. -/
theorem Sound.release_frees (h : s.Sound p) (ho : s.object i = some o) :
    ∃ s', (perform (.release i)).run s = .done () s' ∧
      p.free s'.kernel.ram = p.free s.kernel.ram ∪ framesOf (o.blocksIn s.kernel.ram) := by
  obtain ⟨k', hrelease, hholds, -⟩ := h.release_touches ho
  have hrun : (perform (.release i)).run s = _ := run_consume _
  rw [ho] at hrun
  have hbefore := h.holds_owned.perm (owned_object_perm ho).symm
  refine ⟨_, hrun.trans (run_op_of_done (s := s.put i none) hrelease), ?_⟩
  rw [h.holds_owned.represents.free_eq, ← p.spare_perm (owned_object_perm ho),
    ← hbefore.represents.spare_append]
  exact hholds.represents.free_eq

/-! ## What the target has got -/

/-- The mappings `xs` were copied into the page table `u` of the object `o` at place `target`, and
nothing else is different. The object owns what it has got alone, and gives it back when it is
released. -/
structure Merges (p : FramePool) (s : Session) (target : Nat) (o : Object) (u : PageTable)
    (xs : List (VirtualAddress × PageEntry)) (s' : Session) : Prop where
  object_eq : s'.object target = some o
  others : s.ChangesOnly target s'
  copies : u.Copies p s.kernel.ram s'.kernel.ram xs
  slot_kept : ∀ n leaf, u.slotIn s.kernel.ram n = some leaf → u.slotIn s'.kernel.ram n = some leaf
  /-- New tables and pages lie in frames that were free. -/
  fresh : ∀ f ∈ framesOf (o.blocksIn s'.kernel.ram),
    f ∈ framesOf (o.blocksIn s.kernel.ram) ∨ f ∈ p.free s.kernel.ram
  apart : (o.blocksIn s'.kernel.ram).Pairwise Block.Apart
  alone : ∀ f ∈ framesOf (o.blocksIn s'.kernel.ram), f ∉ framesOf (s'.put target none).owned
  /-- Nothing is left over: what is free then is what was free at first, and what the object owned. -/
  released : ∃ s'', (perform (.release target)).run s' = .done () s'' ∧
    p.free s''.kernel.ram = p.free s'.kernel.ram ∪ framesOf (o.blocksIn s'.kernel.ram) ∧
      p.free s''.kernel.ram = p.free s.kernel.ram ∪ framesOf (o.blocksIn s.kernel.ram)

theorem Sound.merges {k' : Kernel} (h : s.Sound p) (ho : s.object target = some o)
    (hu : o.table? = some u) (hmerged : u.Merged p (s.put target none).owned s.kernel xs k') :
    s.Merges p target o u xs (s.withKernel k') := by
  have h' : (s.withKernel k').Sound p :=
    (h.shows_change ho hu ⟨_, hmerged.held, hmerged.sameBlocks, rfl⟩).sound
  have hblocks : o.blocksIn k'.ram = u.blocks (u.mapIn k'.ram) := Object.blocksIn_of_table? hu _
  have hbefore := h.holds_owned.perm (owned_object_perm ho).symm
  have hafter := h'.holds_owned.perm (owned_object_perm (s := s.withKernel k') ho).symm
  have hrest : p.free k'.ram ∪ framesOf (o.blocksIn k'.ram) = p.spare (s.put target none).owned := by
    rw [hblocks, hmerged.held.holds.represents.free_eq,
      ← hmerged.held.holds.represents.spare_append]
  refine ⟨ho, h.changesOnly rfl (fun _ _ => rfl) hmerged.sameBlocks, hmerged.copies,
    hmerged.slot_kept, fun f hf => ?_, ?_, fun f hf => ?_, ?_⟩
  · have hmem : f ∈ p.spare (s.put target none).owned := hrest ▸ .inr hf
    rw [hbefore.represents.spare_append, p.spare_perm (owned_object_perm ho),
      ← h.holds_owned.represents.free_eq] at hmem
    exact hmem.symm
  · exact (List.pairwise_append.1 hafter.represents.apart).1
  · exact hafter.represents.disjoint_of_append hf
  · obtain ⟨s'', hrun, hfree⟩ := h'.release_frees (s := s.withKernel k') ho
    refine ⟨s'', hrun, hfree, hfree.trans (hrest.trans ?_)⟩
    rw [hbefore.represents.spare_append, p.spare_perm (owned_object_perm ho),
      ← h.holds_owned.represents.free_eq]

/-! ## The answer -/

/-- Copying the table `t` at place `i` into `u` at place `target` is granted when the frames that it
takes are free. It is refused otherwise, and has copied the first pages of the source then. -/
structure CopyAnswers (p : FramePool) (s : Session) (i : Nat) (t : PageTable) (target : Nat)
    (o : Object) (u : PageTable) : Prop where
  /-- The mappings of the source, in the order of their addresses. -/
  sorted : (t.mappingsIn s.kernel.ram).Pairwise fun x y => x.1.val < y.1.val
  done_iff : (∃ s', (perform (.copyTable i target)).run s = .done () s') ↔
    t.copyCost u s.kernel.ram ≤ p.freeFrames s.kernel.ram
  refused_iff : (∃ s', (perform (.copyTable i target)).run s = .refused .outOfMemory s') ↔
    p.freeFrames s.kernel.ram < t.copyCost u s.kernel.ram
  done : ∀ s', (perform (.copyTable i target)).run s = .done () s' →
    s.Merges p target o u (t.mappingsIn s.kernel.ram) s' ∧
      ∀ n, (u.slotIn s'.kernel.ram n).isSome =
        ((u.slotIn s.kernel.ram n).isSome || (t.slotIn s.kernel.ram n).isSome)
  refused : ∀ s', (perform (.copyTable i target)).run s = .refused .outOfMemory s' →
    ∃ c, s.Merges p target o u ((t.mappingsIn s.kernel.ram).take c) s' ∧
      (c < (t.mappingsIn s.kernel.ram).length ∨ c = (t.mappingsIn s.kernel.ram).length ∧
        ∃ n, (t.slotIn s.kernel.ram n).isSome = true ∧ u.slotIn s'.kernel.ram n = none)

theorem Sound.copyTable_meets (h : s.Sound p) (hne : i ≠ target) (ho : s.object i = some o)
    (ht : o.table? = some t) (ho' : s.object target = some o') (hu : o'.table? = some u)
    (hapart : ∀ a, (t.entryIn s.kernel.ram a).isValid = false ∨
      (u.entryIn s.kernel.ram a).isValid = false) :
    ((perform (.copyTable i target)).run s).Meets
      (fun _ s' => t.copyCost u s.kernel.ram ≤ p.freeFrames s.kernel.ram ∧
        s.Merges p target o' u (t.mappingsIn s.kernel.ram) s' ∧
          ∀ n, (u.slotIn s'.kernel.ram n).isSome =
            ((u.slotIn s.kernel.ram n).isSome || (t.slotIn s.kernel.ram n).isSome))
      (fun cause s' => cause = .outOfMemory ∧
        p.freeFrames s.kernel.ram < t.copyCost u s.kernel.ram ∧
          ∃ c, s.Merges p target o' u ((t.mappingsIn s.kernel.ram).take c) s' ∧
            (c < (t.mappingsIn s.kernel.ram).length ∨ c = (t.mappingsIn s.kernel.ram).length ∧
              ∃ n, (t.slotIn s.kernel.ram n).isSome = true ∧ u.slotIn s'.kernel.ram n = none))
      never := by
  have hsource : t.Shows s.kernel.ram (t.mapIn s.kernel.ram) := (h.take ho).2.shows ht
  have hbeside := h.held_beside hne.symm ho ht ho' hu
  have hperm := source_perm hne.symm ho ht
  have hpages : ∀ j j', (u.mapIn s.kernel.ram).page j j' = none ∨
      (t.mapIn s.kernel.ram).page j j' = none := by
    intro j j'
    have hentry := hapart (pageAt j j')
    rw [hsource.entryIn_eq, hbeside.shows.entryIn_eq, isValid_entryOf, isValid_entryOf,
      Address.directoryIndex_pageAt, Address.tableIndex_pageAt] at hentry
    simpa [or_comm] using hentry
  have hrun : (perform (.copyTable i target)).run s = (op (t.copyTo u)).run s := by
    rw [run_copyTable hne, ho, Option.bind_some, ht]
    show (onTable target t.copyTo).run s = _
    rw [run_onTable, ho', Option.bind_some, hu]
  rw [hrun]
  refine op_meets ((PageTable.copyTo_merges hbeside hsource hpages).mono ?_ ?_ fun _ hH => hH)
  · intro _ k' ⟨hle, hmerged, hslots⟩
    exact ⟨hle, h.merges ho' hu (hmerged.perm hperm), hslots⟩
  · intro cause k' ⟨hcause, hlt, c, hmerged, hfirst⟩
    exact ⟨hcause, hlt, c, h.merges ho' hu (hmerged.perm hperm), hfirst⟩

/-- In every session that a client can come to, copying one page table into another with which it has
no page in common is answered so. -/
theorem copyTable_merges (hboot : s₀.Booted p)
    (hruns : Runs (fun s r => r.Permitted p s) s₀ trace s) (hne : i ≠ target)
    (ho : s.object i = some o) (ht : o.table? = some t) (ho' : s.object target = some o')
    (hu : o'.table? = some u)
    (hapart : ∀ a, (t.entryIn s.kernel.ram a).isValid = false ∨
      (u.entryIn s.kernel.ram a).isValid = false) : s.CopyAnswers p i t target o' u := by
  have hsound := hruns.sound (fun _ _ hr => hr) hboot.sound
  have hmeets := hsound.copyTable_meets hne ho ht ho' hu hapart
  have hdecides : ((perform (.copyTable i target)).run s).Meets
      (fun _ _ => t.copyCost u s.kernel.ram ≤ p.freeFrames s.kernel.ram)
      (fun cause _ => cause = .outOfMemory ∧
        ¬ t.copyCost u s.kernel.ram ≤ p.freeFrames s.kernel.ram) never :=
    hmeets.mono (fun _ _ hdone => hdone.1)
      (fun _ _ hrefused => ⟨hrefused.1, Nat.not_le.2 hrefused.2.1⟩) fun _ hH => hH
  refine ⟨((hsound.take ho).2.shows ht).pairwise_mappingsIn, ?_, ?_, fun s' hrun => ?_,
    fun s' hrun => ?_⟩
  · rw [← (hdecides.mono (fun _ _ hC => hC) (fun _ _ hR => hR.2) fun _ hH => hH).done_iff]
    exact ⟨fun ⟨s', hrun⟩ => ⟨(), s', hrun⟩, fun ⟨_, s', hrun⟩ => ⟨s', hrun⟩⟩
  · rw [← Nat.not_le]
    exact hdecides.refused_iff
  · exact (hmeets.of_done hrun).2
  · exact (hmeets.of_refused hrun).2.2

/-! ## A small machine -/

section Inserting

variable {sp c : AddressSpace} {code : Nat} {a : VirtualAddress} {i j : Nat} {r : Request}

/-- A fault that is serviced adds the page of its address to those of its space. -/
theorem Sound.fault_inserts (h : s.Sound p) (ho : s.object i = some (.space sp))
    (hrun : (perform (.fault (some i) code a)).run s = .done () s') :
    (sp.table.mapIn s'.kernel.ram).pageMap.slots =
        insert a.directoryIndex (sp.table.mapIn s.kernel.ram).pageMap.slots ∧
      (sp.table.mapIn s'.kernel.ram).pageMap.keys =
        insert (a.directoryIndex, a.tableIndex) (sp.table.mapIn s.kernel.ram).pageMap.keys := by
  obtain ⟨k', writable, e, rfl, -, hmaps⟩ := (h.faultAt_meets ho code a).of_done hrun
  exact ⟨hmaps.maps.slots_pageMap, hmaps.maps.keys_pageMap⟩

/-- A space that a request does not alter has the pages it had. -/
theorem Sound.mapIn_eq (h : s.Sound p) (hr : r.Permitted p s)
    (hrun : (perform r).run s = .done () s') (ho : s.object j = some (.space c))
    (halters : ¬ r.Alters j) : c.table.mapIn s'.kernel.ram = c.table.mapIn s.kernel.ram :=
  ((h.perform_leaves ho hr halters).of_done hrun).mapIn_eq (h.take ho).2 (t := c.table) rfl

theorem Sound.need_eq (h : s.Sound p) (ho : s.object i = some (.space sp)) (a : VirtualAddress) :
    sp.table.need s.kernel.ram a =
      if (a.directoryIndex, a.tableIndex) ∈ (sp.table.mapIn s.kernel.ram).pageMap.keys then 0
      else if a.directoryIndex ∈ (sp.table.mapIn s.kernel.ram).pageMap.slots then 1 else 2 := by
  rw [(h.held ho (t := sp.table) rfl).shows.need_eq]
  simp only [TableMap.need, TableMap.mem_keys, TableMap.mem_slots]

end Inserting

/-- The page of the user stack below the topmost one. -/
def secondStackPage : VirtualAddress := ⟨userStackTop - 2 * pageSize, by decide⟩

/-- The page below that. -/
def thirdStackPage : VirtualAddress := ⟨userStackTop - 3 * pageSize, by decide⟩

/-- Where an address lies in a page table. -/
def position (a : VirtualAddress) : Fin directorySlots × Fin tableEntries :=
  (a.directoryIndex, a.tableIndex)

/-- A space with two pages of its stack takes five frames away: one for the records, one for the
directory, one for the second-level table and two for the pages. -/
theorem exists_stack {n : Nat} (hroom : 5 ≤ n) (hle : n ≤ pageSize) :
    ∃ (s₀ s : Session) (sp : AddressSpace), s₀.Booted (pages n) ∧
      Runs (fun s r => r.Permitted (pages n) s) s₀ [(.newSpace, true),
        (.fault (some 0) 0 stackPage, true), (.fault (some 0) 0 secondStackPage, true)] s ∧
      s.objects = [some (.space sp)] ∧
      (sp.table.mapIn s.kernel.ram).pageMap.slots = {stackPage.directoryIndex} ∧
      (sp.table.mapIn s.kernel.ram).pageMap.keys = {position secondStackPage, position stackPage} ∧
        (pages n).freeFrames s.kernel.ram = n - 5 := by
  obtain ⟨s₀, s₁, sp, hboot, hruns₁, hobjects₁, hvacant, hfree₁⟩ := exists_newSpace
    (P := fun s r => r.Permitted (pages n) s) (by omega) hle fun _ => trivial
  have hsound₁ := hruns₁.sound (fun _ _ hr => hr) hboot.sound
  have ho₁ := object_first hobjects₁
  have hneed₁ := hsound₁.need_of_vacant ho₁ hvacant stackPage
  obtain ⟨s₂, hfault₁, -, hobjects₂, -, hfree₂⟩ :=
    hsound₁.fault_done ho₁ Nat.zero_lt_two (reaches_stackPage sp) (by omega)
  have hruns₂ := hruns₁.granted (r := .fault (some 0) 0 stackPage) trivial hfault₁
  have hsound₂ := hruns₂.sound (fun _ _ hr => hr) hboot.sound
  have ho₂ := object_first (hobjects₂.trans hobjects₁)
  obtain ⟨hslots₂, hkeys₂⟩ := hsound₁.fault_inserts ho₁ hfault₁
  rw [hvacant, TableMap.pageMap_vacant] at hslots₂ hkeys₂
  rw [PageMap.keys_empty] at hkeys₂
  -- the second page finds the second-level table of the first
  have hneed₂ : sp.table.need s₂.kernel.ram secondStackPage = 1 := by
    rw [hsound₂.need_eq ho₂, hslots₂, hkeys₂]
    decide
  obtain ⟨s₃, hfault₂, -, hobjects₃, -, hfree₃⟩ :=
    hsound₂.fault_done (a := secondStackPage) ho₂ Nat.zero_lt_two ⟨by decide, .inr (by decide)⟩
      (by omega)
  have hruns₃ := hruns₂.granted (r := .fault (some 0) 0 secondStackPage) trivial hfault₂
  obtain ⟨hslots₃, hkeys₃⟩ := hsound₂.fault_inserts ho₂ hfault₂
  refine ⟨s₀, s₃, sp, hboot, hruns₃, hobjects₃.trans (hobjects₂.trans hobjects₁), ?_, ?_, by omega⟩
  · rw [hslots₃, hslots₂]
    decide
  · rw [hkeys₃, hkeys₂]
    rfl

/-- The requests that bring in two pages of one stack, and another page of a second one. -/
def stacksTrace : List (Request × Bool) :=
  [(.newSpace, true), (.fault (some 0) 0 stackPage, true), (.fault (some 0) 0 secondStackPage, true),
    (.newSpace, true), (.fault (some 1) 0 thirdStackPage, true)]

/-- Two spaces with pages of their stacks, of which none is in both. The second-level tables that map
them are for the same slot. -/
structure Stacks (sp c : AddressSpace) (s : Session) : Prop where
  source_eq : s.object 0 = some (.space sp)
  target_eq : s.object 1 = some (.space c)
  source_slots : (sp.table.mapIn s.kernel.ram).pageMap.slots = {stackPage.directoryIndex}
  source_keys : (sp.table.mapIn s.kernel.ram).pageMap.keys =
    {position secondStackPage, position stackPage}
  target_slots : (c.table.mapIn s.kernel.ram).pageMap.slots = {stackPage.directoryIndex}
  target_keys : (c.table.mapIn s.kernel.ram).pageMap.keys = {position thirdStackPage}

/-- The second space takes three more: for its directory, a second-level table and the page. -/
theorem exists_stacks {n : Nat} (hroom : 8 ≤ n) (hle : n ≤ pageSize) :
    ∃ (s₀ s : Session) (sp c : AddressSpace), s₀.Booted (pages n) ∧
      Runs (fun s r => r.Permitted (pages n) s) s₀ stacksTrace s ∧ s.Stacks sp c ∧
        (pages n).freeFrames s.kernel.ram = n - 8 := by
  obtain ⟨s₀, s₁, sp, hboot, hruns₁, hobjects₁, hslots, hkeys, hfree₁⟩ :=
    exists_stack (n := n) (by omega) hle
  have hsound₁ := hruns₁.sound (fun _ _ hr => hr) hboot.sound
  obtain ⟨s₂, c, hmade, -, hobjects₂, hvacant, hfree₂⟩ := hsound₁.newSpace_done (by omega)
  have hruns₂ := hruns₁.granted (r := .newSpace) trivial hmade
  have hsound₂ := hruns₂.sound (fun _ _ hr => hr) hboot.sound
  rw [hobjects₁] at hobjects₂
  have ho : s₂.object 0 = some (.space sp) := object_eq_some.2 (hobjects₂ ▸ rfl)
  have ho' : s₂.object 1 = some (.space c) := object_eq_some.2 (hobjects₂ ▸ rfl)
  have hneed := hsound₂.need_of_vacant ho' hvacant thirdStackPage
  obtain ⟨s₃, hfault, -, hobjects₃, -, hfree₃⟩ :=
    hsound₂.fault_done (a := thirdStackPage) ho' Nat.zero_lt_two ⟨by decide, .inr (by decide)⟩
      (by omega)
  have hruns₃ := hruns₂.granted (r := .fault (some 1) 0 thirdStackPage) trivial hfault
  obtain ⟨hslots', hkeys'⟩ := hsound₂.fault_inserts ho' hfault
  rw [hvacant, TableMap.pageMap_vacant] at hslots' hkeys'
  rw [PageMap.keys_empty] at hkeys'
  -- neither of the two requests alters the first space
  have hmap := (hsound₂.mapIn_eq (r := .fault (some 1) 0 thirdStackPage) trivial hfault ho
    (show some 1 ≠ some 0 by decide)).trans
      (hsound₁.mapIn_eq (r := .newSpace) trivial hmade (object_first hobjects₁) id)
  rw [← hmap] at hslots hkeys
  exact ⟨s₀, s₃, sp, c, hboot, hruns₃, ⟨(object_congr hobjects₃ 0).trans ho,
    (object_congr hobjects₃ 1).trans ho', hslots, hkeys, hslots', hkeys'⟩, by omega⟩

namespace Stacks

variable {sp c : AddressSpace} (h : s.Sound p) (hstacks : s.Stacks sp c)
include h hstacks

theorem apart (a : VirtualAddress) : (sp.table.entryIn s.kernel.ram a).isValid = false ∨
    (c.table.entryIn s.kernel.ram a).isValid = false := by
  have hshows := (h.held hstacks.source_eq (t := sp.table) rfl).shows
  have hshows' := (h.held hstacks.target_eq (t := c.table) rfl).shows
  rw [← Bool.not_eq_true, ← Bool.not_eq_true, hshows.isValid_iff, hshows'.isValid_iff,
    hstacks.source_keys, hstacks.target_keys, ← not_and_or, Finset.mem_singleton]
  rintro ⟨hmem, heq⟩
  rw [heq] at hmem
  exact absurd hmem (by decide)

theorem isValid_third : (c.table.entryIn s.kernel.ram thirdStackPage).isValid = true := by
  rw [(h.held hstacks.target_eq (t := c.table) rfl).shows.isValid_iff, hstacks.target_keys]
  exact Finset.mem_singleton_self _

/-- Copying takes a frame for each page, and none for a second-level table. -/
theorem copyCost_eq : sp.table.copyCost c.table s.kernel.ram = 2 := by
  rw [PageTable.copyCost_eq_card (h.held hstacks.source_eq (t := sp.table) rfl).shows
    (h.held hstacks.target_eq (t := c.table) rfl).shows, hstacks.source_slots, hstacks.target_slots,
    hstacks.source_keys]
  decide

/-- The target has every slot of the source. -/
theorem isSome_slotIn (n : Fin directorySlots)
    (hslot : (sp.table.slotIn s.kernel.ram n).isSome = true) :
    (c.table.slotIn s.kernel.ram n).isSome = true := by
  have hshows := (h.held hstacks.source_eq (t := sp.table) rfl).shows
  have hshows' := (h.held hstacks.target_eq (t := c.table) rfl).shows
  rw [hshows.isSome_slotIn_iff, hstacks.source_slots] at hslot
  rw [hshows'.isSome_slotIn_iff, hstacks.target_slots]
  exact hslot

end Stacks

/-- On ten pages of RAM both pages are copied into a space that has a page of its own. On nine there is
a frame for one of them only, and copying breaks off before the second. -/
theorem ten_pages_merge :
    (∃ (s₀ s s' : Session) (sp c : AddressSpace), s₀.Booted (pages 10) ∧
      Runs (fun s r => r.Permitted (pages 10) s) s₀ stacksTrace s ∧
      (c.table.entryIn s.kernel.ram thirdStackPage).isValid = true ∧
      s.CopyAnswers (pages 10) 0 sp.table 1 (.space c) c.table ∧
        (perform (.copyTable 0 1)).run s = .done () s' ∧
          s.Merges (pages 10) 1 (.space c) c.table (sp.table.mappingsIn s.kernel.ram) s') ∧
    ∃ (s₀ s s' : Session) (sp c : AddressSpace), s₀.Booted (pages 9) ∧
      Runs (fun s r => r.Permitted (pages 9) s) s₀ stacksTrace s ∧
      (c.table.entryIn s.kernel.ram thirdStackPage).isValid = true ∧
      s.CopyAnswers (pages 9) 0 sp.table 1 (.space c) c.table ∧
        (perform (.copyTable 0 1)).run s = .refused .outOfMemory s' ∧
          ∃ n < (sp.table.mappingsIn s.kernel.ram).length, s.Merges (pages 9) 1 (.space c) c.table
            ((sp.table.mappingsIn s.kernel.ram).take n) s' := by
  constructor
  · obtain ⟨s₀, s, sp, c, hboot, hruns, hstacks, hfree⟩ := exists_stacks (n := 10) (by decide) (by decide)
    have hsound := hruns.sound (fun _ _ hr => hr) hboot.sound
    have hanswers := copyTable_merges hboot hruns (t := sp.table) (u := c.table) Nat.zero_ne_one
      hstacks.source_eq rfl hstacks.target_eq rfl (hstacks.apart hsound)
    obtain ⟨s', hrun⟩ := hanswers.done_iff.2 (by rw [hstacks.copyCost_eq hsound, hfree])
    exact ⟨s₀, s, s', sp, c, hboot, hruns, hstacks.isValid_third hsound, hanswers, hrun,
      (hanswers.done s' hrun).1⟩
  · obtain ⟨s₀, s, sp, c, hboot, hruns, hstacks, hfree⟩ := exists_stacks (n := 9) (by decide) (by decide)
    have hsound := hruns.sound (fun _ _ hr => hr) hboot.sound
    have hanswers := copyTable_merges hboot hruns (t := sp.table) (u := c.table) Nat.zero_ne_one
      hstacks.source_eq rfl hstacks.target_eq rfl (hstacks.apart hsound)
    obtain ⟨s', hrun⟩ := hanswers.refused_iff.2 (by rw [hstacks.copyCost_eq hsound, hfree]; decide)
    obtain ⟨n, hmerges, hfirst⟩ := hanswers.refused s' hrun
    refine ⟨s₀, s, s', sp, c, hboot, hruns, hstacks.isValid_third hsound, hanswers, hrun, n,
      hfirst.resolve_right ?_, hmerges⟩
    -- no slot of the source is missing
    rintro ⟨-, i, hslot, hclosed⟩
    obtain ⟨leaf, hleaf⟩ := Option.isSome_iff_exists.1 (hstacks.isSome_slotIn hsound i hslot)
    rw [hmerges.slot_kept i leaf hleaf] at hclosed
    cases hclosed

end Session

end SoftPaging
