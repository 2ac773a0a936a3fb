import Mathlib
import SoftPaging.Proofs.Paging.Operations

/-!
# Giving a page table back

A table that is held can always be given back: neither a loop over entries nor the one over slots is
ever refused or halts, because each address that it gives back is the start of a block that the table
owns. What the table held is spare afterwards, and what others hold is untouched.

The loop over the entries of a second-level table empties each entry as it goes, so its invariant is
a table that maps nothing any more where the loop has been. The loop over the slots of a directory
leaves the slots as they are, so its invariant speaks about the slots still to come.
-/

namespace SoftPaging

open Outcome

variable {t : PageTable} {k k' : Kernel} {p : FramePool} {m : TableMap} {rest : List Block}
  {i : Fin directorySlots} {j : Fin tableEntries} {l : Leaf}

/-! ## Second-level tables -/

namespace EntryTable

/-- The second-level table lies in RAM as the leaf says, and its frames are handed out. -/
structure Held (k : Kernel) (p : FramePool) (l : Leaf) (rest : List Block) : Prop where
  shows : l.table.Shows k.ram l
  holds : k.Holds p (l.blocks ++ rest)

namespace Held

theorem frame_mem (_ : Held k p l rest) : l.frame ∈ framesOf (l.blocks ++ rest) :=
  mem_framesOf_append.2 (.inl (mem_framesOf_self _ _))

theorem run_entry (h : Held k p l rest) (j : Fin tableEntries) :
    (l.table.entry j).run k = .done (entryOf (l.pages j)) k :=
  EntryTable.run_entry h.shows h.holds h.frame_mem j

theorem push (h : Held k p l rest) (e : Event) : Held (k.push e) p l rest :=
  ⟨h.shows, h.holds.push e⟩

/-- Giving back the frame behind an entry empties the entry. -/
theorem releaseEntry (h : Held k p l rest) (j : Fin tableEntries) :
    ∃ k', (l.table.releaseEntry j).run k = .done () k' ∧ Held k' p (l.setPage j none) rest ∧
      Kernel.Touches p {l.frame} k k' := by
  unfold EntryTable.releaseEntry
  rw [Transition.run_bind, h.run_entry, andThen_done]
  cases hpg : l.pages j with
  | none =>
    refine ⟨k, rfl, ?_, Kernel.Touches.refl p _ k⟩
    rw [← hpg, l.setPage_eq_self]
    exact h
  | some pg =>
    have howned : k.Holds p (⟨pg.frame, 1⟩ :: ((l.setPage j none).blocks ++ rest)) :=
      h.holds.perm ((l.blocks_split hpg).append_right rest)
    have hback := howned.takeBack
    have hmem : l.frame ∈ framesOf ((l.setPage j none).blocks ++ rest) :=
      mem_framesOf_append.2 (.inl (mem_framesOf_self _ _))
    have hbounds := hback.frame_bounds hmem
    have htouches : Kernel.Touches p {l.frame} k (k.takeBack p ⟨pg.frame, 1⟩) :=
      Kernel.Touches.takeBack howned.toLends _
    have hsame := (Kernel.Touches.takeBack howned.toLends ∅).sameFrame h.holds.sound hbounds.1
      (Set.notMem_empty l.frame)
    have hoff := sameOff_setEntryIn (k.takeBack p ⟨pg.frame, 1⟩).ram h.shows.frame_lt j .empty
    have hfree := howned.run_freeOwned
    have hset := run_setEntry hback hmem j .empty
    refine ⟨(k.takeBack p ⟨pg.frame, 1⟩).mapRam fun ram => l.table.setEntryIn ram j .empty, ?_,
      ⟨?_, hback.mapRam hoff hbounds.1⟩,
      htouches.trans (Kernel.Touches.mapRam _ hoff (Set.mem_singleton _))⟩
    · rw [entryOf_some, pg.frame?_entry (h.shows.page_lt j pg hpg)]
      simp only [Transition.run_bind, hfree, andThen_done]
      exact hset
    · rw [Kernel.ram_mapRam]
      exact (h.shows.congr hsame).setEntry (hback.frame_le hmem) j none (by simp)

/-- What is left of a table when the entries outside `js` were given back. -/
def Emptied (k : Kernel) (p : FramePool) (l : Leaf) (rest : List Block)
    (js : List (Fin tableEntries)) (k' : Kernel) : Prop :=
  ∃ l' : Leaf, l'.frame = l.frame ∧ Held k' p l' rest ∧ (∀ j ∉ js, l'.pages j = none) ∧
    Kernel.Touches p {l.frame} k k'

theorem Emptied.step {js : List (Fin tableEntries)} (h : Emptied k p l rest (j :: js) k') :
    ∃ k'', (l.table.releaseEntry j).run k' = .done () k'' ∧ Emptied k p l rest js k'' := by
  obtain ⟨l', hframe, hheld, hnone, htouches⟩ := h
  have htable : l.table = l'.table := Leaf.table_congr hframe.symm
  obtain ⟨k'', hrun, hheld', htouches'⟩ := hheld.releaseEntry j
  rw [htable]
  refine ⟨k'', hrun, l'.setPage j none, hframe, hheld', fun j' hj' => ?_,
    htouches.trans (hframe ▸ htouches')⟩
  by_cases hj : j' = j
  · rw [hj, Leaf.pages_setPage_self]
  · rw [Leaf.pages_setPage_of_ne _ _ hj]
    exact hnone j' fun hmem => hj' ((List.mem_cons.1 hmem).resolve_left hj)

theorem emptied (h : Held k p l rest) : Emptied k p l rest (List.finRange tableEntries) k :=
  ⟨l, rfl, h, fun j hj => absurd (List.mem_finRange j) hj, Kernel.Touches.refl p _ k⟩

/-- When all entries were given back, the frame of the table is left. -/
theorem Emptied.holds (h : Emptied k p l rest [] k') : k'.Holds p (⟨l.frame, 1⟩ :: rest) := by
  obtain ⟨l', hframe, hheld, hnone, -⟩ := h
  have hempty : l'.pageBlocks = [] := gather_empty fun j => by rw [hnone j List.not_mem_nil]; rfl
  have hholds := hheld.holds
  rwa [Leaf.blocks, hframe, hempty] at hholds

/-- A second-level table can be given back with all that it maps. -/
theorem release (h : Held k p l rest) :
    ∃ k', l.table.release.run k = .done () k' ∧ k'.Holds p rest ∧
      Kernel.Touches p {l.frame} k k' := by
  obtain ⟨k', hrun, hemptied⟩ := Transition.forM_finRange_done (fun _ _ _ => Emptied.step) h.emptied
  have howned := hemptied.holds
  obtain ⟨-, -, -, -, htouches⟩ := hemptied
  have hfree := howned.run_freeOwned
  refine ⟨_, ?_, howned.takeBack, htouches.trans (Kernel.Touches.takeBack howned.toLends _)⟩
  have hreach := h.holds.run_reachFrame h.frame_mem
  unfold EntryTable.release
  simp only [Transition.run_bind, show l.table.frame = frameAt l.frame from rfl, hreach,
    andThen_done, hrun]
  exact hfree

end Held

end EntryTable

/-! ## Page tables -/

/-- The frames of the second-level tables. -/
def TableMap.leafFrames (m : TableMap) : Set Nat :=
  {f | ∃ i l, m i = some l ∧ f = l.frame}

namespace PageTable

/-- What is left of a table when the slots outside `is` were given back. -/
structure Remains (t : PageTable) (k : Kernel) (p : FramePool) (m : TableMap) (rest : List Block)
    (is : List (Fin directorySlots)) (k' : Kernel) : Prop where
  holds : k'.Holds p (⟨t.frame, 1⟩ :: (is.flatMap (fun i => leafBlocks (m i)) ++ rest))
  slotIn_eq : ∀ i ∈ is, t.slotIn k'.ram i = (m i).map Leaf.table
  leaf_shows : ∀ i ∈ is, ∀ l, m i = some l → l.table.Shows k'.ram l
  touches : Kernel.Touches p m.leafFrames k k'

namespace Remains

variable {is : List (Fin directorySlots)}

theorem run_slot (hdir : t.directory = frameAt t.frame) (h : t.Remains k p m rest (i :: is) k') :
    (t.slot i).run k' = .done ((m i).map Leaf.table) k' := by
  have hreach := h.holds.run_reachFrame (mem_framesOf_self t.frame _)
  unfold slot
  rw [Transition.run_bind, hdir, hreach, andThen_done, Op.run_look,
    h.slotIn_eq i List.mem_cons_self]

/-- A slot that is still to come holds its second-level table. -/
theorem leaf_held (h : t.Remains k p m rest (i :: is) k') (hl : m i = some l) :
    EntryTable.Held k' p l (⟨t.frame, 1⟩ :: (is.flatMap (fun i => leafBlocks (m i)) ++ rest)) := by
  have hholds := h.holds
  rw [List.flatMap_cons, hl, leafBlocks_some, List.append_assoc] at hholds
  exact ⟨h.leaf_shows i List.mem_cons_self l hl, hholds.perm List.perm_middle.symm⟩

theorem step (hdir : t.directory = frameAt t.frame) (h : t.Remains k p m rest (i :: is) k') :
    ∃ k'', (t.releaseSlot i).run k' = .done () k'' ∧ t.Remains k p m rest is k'' := by
  unfold releaseSlot
  rw [Transition.run_bind, h.run_slot hdir, andThen_done]
  cases hl : m i with
  | none =>
    have hholds := h.holds
    rw [List.flatMap_cons, hl, leafBlocks_none, List.nil_append] at hholds
    exact ⟨k', rfl, hholds, fun i' hi' => h.slotIn_eq i' (List.mem_cons_of_mem i hi'),
      fun i' hi' => h.leaf_shows i' (List.mem_cons_of_mem i hi'), h.touches⟩
  | some l =>
    have hleaf := h.leaf_held hl
    obtain ⟨k'', hrun, hafter, htouches⟩ := hleaf.release
    -- the frames still owned are not the one that the loop wrote to
    have hsame {f : Nat} (hf : f ∈ framesOf
        (⟨t.frame, 1⟩ :: (is.flatMap (fun i => leafBlocks (m i)) ++ rest))) :
        k'.ram.SameFrame k''.ram f :=
      htouches.sameFrame hafter.sound (hafter.frame_bounds hf).1
        (hleaf.holds.ne_of_mem (mem_framesOf_append.2 (.inr hf)))
    refine ⟨k'', hrun, hafter, fun i' hi' => ?_, fun i' hi' l' hl' => ?_, ?_⟩
    · rw [← h.slotIn_eq i' (List.mem_cons_of_mem i hi')]
      refine slotIn_congr fun j hlow hhigh => ?_
      rw [hdir, val_frameAt t.frame_lt] at hlow hhigh
      exact (hsame (mem_framesOf_self t.frame _)).byte hlow hhigh
    · refine (h.leaf_shows i' (List.mem_cons_of_mem i hi') l' hl').congr (hsame ?_)
      refine mem_framesOf_cons.2 (.inr (mem_framesOf_append.2 (.inl ?_)))
      refine ⟨⟨l'.frame, 1⟩, List.mem_flatMap.2 ⟨i', hi', ?_⟩, Block.mem_one.2 rfl⟩
      rw [hl']
      exact List.mem_cons_self
    · refine h.touches.trans (htouches.mono ?_)
      rintro f rfl
      exact ⟨i, l, hl, rfl⟩

end Remains

/-- Nothing of the table was given back yet. -/
theorem Held.remains (h : t.Held k p m rest) :
    t.Remains k p m rest (List.finRange directorySlots) k :=
  ⟨h.holds, fun i _ => h.shows.slotIn_eq i, fun i _ => h.shows.leaf_shows i,
    Kernel.Touches.refl p _ k⟩

namespace Held

/-- A page table can be given back with all that it maps. -/
theorem release (h : t.Held k p m rest) :
    ∃ k', t.release.run k = .done () k' ∧ k'.Holds p rest ∧
      Kernel.Touches p m.leafFrames k k' := by
  obtain ⟨k', hrun, hremains⟩ :=
    Transition.forM_finRange_done (fun _ _ _ => Remains.step h.shows.directory_eq) h.remains
  have howned : k'.Holds p (⟨t.frame, 1⟩ :: rest) := hremains.holds
  have hfree := howned.run_freeOwned
  refine ⟨_, ?_, howned.takeBack,
    hremains.touches.trans (Kernel.Touches.takeBack howned.toLends _)⟩
  unfold PageTable.release
  simp only [Transition.run_bind, h.run_reachDirectory, andThen_done, hrun]
  rw [h.shows.directory_eq]
  exact hfree

theorem run_leaves (h : t.Held k p m rest) : t.leaves.run k = .done (t.leavesIn k.ram) k := by
  unfold leaves
  rw [Transition.run_bind, h.run_reachDirectory, andThen_done, Op.run_look]

theorem run_mappings (h : t.Held k p m rest) : t.mappings.run k = .done (t.mappingsIn k.ram) k := by
  have hidle : ∀ x ∈ t.leavesIn k.ram, (Op.reachFrame x.2.frame).run k = .done () k := by
    rintro ⟨i, leaf⟩ hx
    obtain ⟨i', -, hi'⟩ := List.mem_filterMap.1 hx
    rw [h.shows.slotIn_eq, Option.map_map] at hi'
    obtain ⟨l, hl, heq⟩ := Option.map_eq_some_iff.1 hi'
    obtain ⟨rfl, rfl⟩ := Prod.mk.inj heq
    exact h.holds.run_reachFrame (h.leaf_mem hl)
  have hreach := Transition.run_forM_of_idle (f := fun x : Fin directorySlots × EntryTable =>
    Op.reachFrame x.2.frame) hidle
  unfold mappings
  rw [Transition.run_bind, h.run_leaves, andThen_done, Transition.run_bind]
  exact congrArg (·.andThen fun _ s => (Op.look t.mappingsIn).run s) hreach

theorem run_residentPages (h : t.Held k p m rest) :
    t.residentPages.run k = .done (t.mappingsIn k.ram).length k := by
  unfold residentPages
  rw [Transition.run_bind, h.run_mappings, andThen_done, Transition.run_pure]

theorem run_openSlots (h : t.Held k p m rest) :
    t.openSlots.run k = .done (t.leavesIn k.ram).length k := by
  unfold PageTable.openSlots
  rw [Transition.run_bind, h.run_leaves, andThen_done, Transition.run_pure]

/-- Giving a page table back and saying so in the log. -/
theorem tearDown (h : t.Held k p m rest) :
    ∃ k', t.tearDown.run k = .done () k' ∧ k'.Holds p rest ∧
      Kernel.Touches p m.leafFrames k k' := by
  obtain ⟨k', hrun, hholds, htouches⟩ :=
    (h.push (.tableReleased (t.leavesIn k.ram).length t.directory)).release
  refine ⟨k', ?_, hholds, (Kernel.Touches.push p _ k _).trans htouches⟩
  unfold PageTable.tearDown openSlots
  simp [h.run_leaves, hrun]

/-! ## Closing a slot -/

theorem run_closeSlot_of_closed (h : t.Held k p m rest) (hi : m i = none) :
    (t.closeSlot i.val).run k = .done () k := by
  unfold PageTable.closeSlot
  simp [h.run_slotNumbered, hi]

/-- The frame of a table taken out of its slot holds none of the tables that are left. -/
theorem leaf_not_mem_skeleton (h : t.Held k p m rest) (hl : m i = some l) :
    l.frame ∉ t.skeleton (m.setSlot i none) := by
  intro hmem
  exact (h.focus hl).ne_of_mem (mem_framesOf_append.2 (.inr (mem_framesOf_append.2
    (.inl (t.skeleton_subset _ hmem))))) rfl

/-- A table whose slot was emptied, and the second-level table that was in it, each on its own. -/
theorem takeOut (h : t.Held k p m rest) (hl : m i = some l) :
    t.Held (k.mapRam fun ram => t.setSlotIn ram i none) p (m.setSlot i none) (l.blocks ++ rest) ∧
      EntryTable.Held (k.mapRam fun ram => t.setSlotIn ram i none) p l
        (t.blocks (m.setSlot i none) ++ rest) := by
  have hfocus : k.Holds p (t.blocks (m.setSlot i none) ++ (l.blocks ++ rest)) := by
    refine (h.focus hl).perm ?_
    rw [← List.append_assoc, ← List.append_assoc]
    exact List.perm_append_comm.append_right rest
  have hset := h.setSlot i none (by simp) hfocus
  have hsame : k.ram.SameFrame (t.setSlotIn k.ram i none) l.frame := fun j hj =>
    (h.shows.sameOff_setSlotIn k.ram i none).byte_eq j (hj ▸ h.leaf_ne hl)
  refine ⟨hset, ?_, hset.holds.perm ?_⟩
  · rw [Kernel.ram_mapRam]
    exact (h.shows.leaf_shows i l hl).congr hsame
  · rw [← List.append_assoc, ← List.append_assoc]
    exact List.perm_append_comm.append_right rest

/-- Closing a slot writes the slot and gives back the second-level table with all that it maps. -/
theorem closeSlot (h : t.Held k p m rest) (hl : m i = some l) :
    ∃ k', (t.closeSlot i.val).run k = .done () k' ∧ t.Held k' p (m.setSlot i none) rest ∧
      Kernel.Touches p {l.frame} (k.mapRam fun ram => t.setSlotIn ram i none) k' := by
  obtain ⟨hset, hleaf⟩ := h.takeOut hl
  obtain ⟨k', hrun, hafter, htouches⟩ :=
    (hleaf.push (.slotReleased i.val l.table.frame)).release
  refine ⟨k', ?_, ?_, (Kernel.Touches.push p _ _ _).trans htouches⟩
  · unfold PageTable.closeSlot
    simp [h.run_slotNumbered, hl, h.run_setSlot, hrun]
  · refine ⟨hset.shows.congr fun f hf => ?_, hafter⟩
    have hlive : f ∈ framesOf (t.blocks (m.setSlot i none) ++ rest) :=
      mem_framesOf_append.2 (.inl (t.skeleton_subset _ hf))
    refine htouches.sameFrame hafter.sound (hafter.frame_bounds hlive).1 ?_
    rintro rfl
    exact h.leaf_not_mem_skeleton hl hf

end Held

end PageTable

end SoftPaging
