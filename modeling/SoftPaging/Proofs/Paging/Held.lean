import Mathlib
import SoftPaging.Proofs.Paging.Shows

/-!
# Page tables that are held

`PageTable.Held t k p m rest` is what an operation on a page table starts from: the table lies in RAM
as the map `m` says, and the pool has handed out its frames and those of `rest`, which belong to
others. From it, all frames of the table lie in RAM, are reached by the direct map, and are distinct,
so that reading a slot or an entry answers what the map says, and writing one leaves the others
alone.
-/

namespace SoftPaging

open Outcome

/-! ## Second-level tables -/

namespace EntryTable

variable {k : Kernel} {p : FramePool} {live : List Block} {l : Leaf}

theorem run_entry (hl : l.table.Shows k.ram l) (hk : k.Holds p live)
    (hf : l.frame ∈ framesOf live) (j : Fin tableEntries) :
    (l.table.entry j).run k = .done (entryOf (l.pages j)) k := by
  have hreach := hk.run_reachFrame hf
  unfold entry
  rw [Transition.run_bind, Leaf.table, hreach, andThen_done, Op.run_look]
  exact congrArg (done · k) (hl.entryIn_eq j)

theorem run_setEntry (hk : k.Holds p live) (hf : l.frame ∈ framesOf live) (j : Fin tableEntries)
    (e : PageEntry) :
    (l.table.setEntry j e).run k = .done () (k.mapRam fun ram => l.table.setEntryIn ram j e) := by
  have hreach := hk.run_reachFrame hf
  unfold setEntry
  rw [Transition.run_bind, Leaf.table, hreach, andThen_done, Op.run_onRam]

end EntryTable

/-! ## Page tables -/

namespace PageTable

variable {t : PageTable} {k k' : Kernel} {p : FramePool} {m : TableMap} {rest : List Block}
  {i i' : Fin directorySlots} {j : Fin tableEntries} {l l' : Leaf} {pg : Page} {f : Nat}

/-- The page table lies in RAM as the map says, and its frames are handed out. -/
structure Held (t : PageTable) (k : Kernel) (p : FramePool) (m : TableMap) (rest : List Block) :
    Prop where
  shows : t.Shows k.ram m
  holds : k.Holds p (t.blocks m ++ rest)

theorem blocks_setSlot (t : PageTable) (m : TableMap) (i : Fin directorySlots) (l? : Option Leaf) :
    (t.blocks (m.setSlot i l?)).Perm (leafBlocks l? ++ t.blocks (m.setSlot i none)) :=
  ((m.blocks_setSlot i l?).cons _).trans List.perm_middle.symm

theorem blocks_split (t : PageTable) {l? : Option Leaf} (h : m i = l?) :
    (t.blocks m).Perm (leafBlocks l? ++ t.blocks (m.setSlot i none)) := by
  have hsplit := t.blocks_setSlot m i l?
  rwa [m.setSlot_eq_self h] at hsplit

namespace Held

theorem frame_mem (_ : t.Held k p m rest) : t.frame ∈ framesOf (t.blocks m ++ rest) :=
  mem_framesOf_append.2 (.inl (mem_framesOf_self _ _))

theorem skeleton_mem (_ : t.Held k p m rest) (hf : f ∈ t.skeleton m) :
    f ∈ framesOf (t.blocks m ++ rest) :=
  mem_framesOf_append.2 (.inl (t.skeleton_subset m hf))

theorem leaf_mem (h : t.Held k p m rest) (hl : m i = some l) :
    l.frame ∈ framesOf (t.blocks m ++ rest) :=
  h.skeleton_mem (.inr ⟨i, l, hl, rfl⟩)

/-- The frames of a second-level table stand apart from all the others. -/
theorem focus (h : t.Held k p m rest) (hl : m i = some l) :
    k.Holds p (l.blocks ++ (t.blocks (m.setSlot i none) ++ rest)) := by
  refine h.holds.perm ?_
  rw [← List.append_assoc]
  exact (t.blocks_split hl).append_right rest

theorem leaf_ne (h : t.Held k p m rest) (hl : m i = some l) : l.frame ≠ t.frame :=
  h.holds.ne_of_mem (mem_framesOf_append.2 (.inl (TableMap.leaf_mem_blocks hl)))

theorem leaf_ne_leaf (h : t.Held k p m rest) (hl : m i = some l) (hl' : m i' = some l')
    (hne : i' ≠ i) : l'.frame ≠ l.frame := by
  have hrest : m.setSlot i none i' = some l' := by rw [TableMap.setSlot_of_ne _ _ hne, hl']
  refine (h.focus hl).ne_of_mem (mem_framesOf_append.2 (.inr (mem_framesOf_append.2 (.inl ?_))))
  exact t.skeleton_subset _ (.inr ⟨i', l', hrest, rfl⟩)

/-- The frame of a page holds no table. -/
theorem page_not_mem_skeleton (h : t.Held k p m rest) (hl : m i = some l)
    (hpg : l.pages j = some pg) : pg.frame ∉ t.skeleton m := by
  have hpage : pg.frame ∈ framesOf l.pageBlocks := Leaf.mem_framesOf_pageBlocks.2 ⟨j, pg, hpg, rfl⟩
  rintro (heq | ⟨i', l', hl', heq⟩)
  · refine absurd heq (h.holds.ne_of_mem (mem_framesOf_append.2 (.inl ?_)))
    exact TableMap.mem_framesOf_blocks.2 ⟨i, l, hl, mem_framesOf_cons.2 (.inr hpage)⟩
  · by_cases hi : i' = i
    · subst hi
      obtain rfl := Option.some.inj (hl.symm.trans hl')
      exact absurd heq ((h.focus hl).ne_of_mem (mem_framesOf_append.2 (.inl hpage)))
    · -- the other table is not in the same blocks as the page
      have hrest : m.setSlot i none i' = some l' := by rw [TableMap.setSlot_of_ne _ _ hi, hl']
      refine (h.focus hl).represents.disjoint_of_append (mem_framesOf_cons.2 (.inr hpage)) ?_
      rw [heq]
      exact mem_framesOf_append.2 (.inl (t.skeleton_subset _ (.inr ⟨i', l', hrest, rfl⟩)))

theorem page_mem (_ : t.Held k p m rest) (hpg : m.page i j = some pg) :
    pg.frame ∈ framesOf (t.blocks m ++ rest) :=
  mem_framesOf_append.2 (.inl (t.page_mem_blocks hpg))

/-- The frame of an entry is that of a page. -/
theorem page_of_frame? (h : t.Held k p m rest) {a : VirtualAddress} {f : PhysicalAddress}
    (hf : (t.entryIn k.ram a).frame? = some f) :
    ∃ pg, m.page a.directoryIndex a.tableIndex = some pg ∧ f = frameAt pg.frame := by
  rw [h.shows.entryIn_eq] at hf
  cases hpg : m.page a.directoryIndex a.tableIndex with
  | none =>
    rw [hpg] at hf
    cases hf
  | some pg =>
    rw [hpg, entryOf_some, pg.frame?_entry (h.holds.frame_lt (h.page_mem hpg))] at hf
    exact ⟨pg, rfl, (Option.some.inj hf).symm⟩

/-- Writing to the tables themselves, or to frames that were spare, leaves the pages alone. -/
theorem page_sameFrame {F : Set Nat} (h : t.Held k p m rest) (hpg : m.page i j = some pg)
    (htouches : Kernel.Touches p F k k')
    (hF : F ⊆ t.skeleton m ∪ p.spare (t.blocks m ++ rest)) : k.ram.SameFrame k'.ram pg.frame := by
  have hmem := h.page_mem hpg
  refine htouches.sameFrame h.holds.sound (h.holds.frame_bounds hmem).1 fun hpF => ?_
  obtain ⟨l, hl, hpg⟩ := TableMap.page_eq_some.1 hpg
  rcases hF hpF with hskeleton | hspare
  · exact h.page_not_mem_skeleton hl hpg hskeleton
  · exact hspare.2.2 hmem

/-- A kernel that lends the same and left the tables alone holds the page table as before. -/
theorem of_touches {F : Set Nat} (h : t.Held k p m rest) {rest' : List Block}
    (hk : k'.Holds p (t.blocks m ++ rest')) (htouches : Kernel.Touches p F k k')
    (hF : ∀ f ∈ t.skeleton m, f ∉ F) : t.Held k' p m rest' where
  shows := h.shows.congr fun f hf =>
    htouches.sameFrame h.holds.sound (h.holds.frame_bounds (h.skeleton_mem hf)).1 (hF f hf)
  holds := hk

theorem push (h : t.Held k p m rest) (e : Event) : t.Held (k.push e) p m rest :=
  ⟨h.shows, h.holds.push e⟩

/-! ## Reading and writing -/

theorem run_reachDirectory (h : t.Held k p m rest) :
    (Op.reachFrame t.directory).run k = .done () k := by
  rw [h.shows.directory_eq]
  exact h.holds.run_reachFrame h.frame_mem

theorem run_slot (h : t.Held k p m rest) (i : Fin directorySlots) :
    (t.slot i).run k = .done ((m i).map Leaf.table) k := by
  unfold slot
  rw [Transition.run_bind, h.run_reachDirectory, andThen_done, Op.run_look, h.shows.slotIn_eq i]

theorem run_slotNumbered (h : t.Held k p m rest) (i : Fin directorySlots) :
    (t.slotNumbered i.val).run k = .done (i, (m i).map Leaf.table) k := by
  unfold slotNumbered
  simp only [Transition.run_bind, h.run_reachDirectory, andThen_done, checkedIndex_of_lt i.isLt,
    Transition.liftM_ok, Transition.run_pure, Fin.eta, h.run_slot]

theorem run_isOpen (h : t.Held k p m rest) (i : Fin directorySlots) :
    (t.isOpen i.val).run k = .done (m i).isSome k := by
  unfold PageTable.isOpen
  rw [Transition.run_bind, h.run_slotNumbered, andThen_done, Transition.run_pure,
    Option.isSome_map]

theorem run_setSlot (h : t.Held k p m rest) (i : Fin directorySlots) (leaf? : Option EntryTable) :
    (t.setSlot i leaf?).run k = .done () (k.mapRam fun ram => t.setSlotIn ram i leaf?) := by
  unfold setSlot
  rw [Transition.run_bind, h.run_reachDirectory, andThen_done, Op.run_onRam]

theorem run_entry (h : t.Held k p m rest) (hl : m i = some l) (j : Fin tableEntries) :
    (l.table.entry j).run k = .done (entryOf (l.pages j)) k :=
  EntryTable.run_entry (h.shows.leaf_shows i l hl) h.holds (h.leaf_mem hl) j

theorem run_setEntry (h : t.Held k p m rest) (hl : m i = some l) (j : Fin tableEntries)
    (e : PageEntry) :
    (l.table.setEntry j e).run k = .done () (k.mapRam fun ram => l.table.setEntryIn ram j e) :=
  EntryTable.run_setEntry h.holds (h.leaf_mem hl) j e

/-- The entry of an address is that of the page at its position. -/
theorem run_entry_address (h : t.Held k p m rest) (a : VirtualAddress) :
    (t.entry a).run k = .done (entryOf (m.page a.directoryIndex a.tableIndex)) k := by
  unfold entry TableMap.page
  rw [Transition.run_bind, h.run_slot, andThen_done]
  cases hl : m a.directoryIndex with
  | none => rfl
  | some l => exact h.run_entry hl a.tableIndex

theorem run_translate (h : t.Held k p m rest) (a : VirtualAddress) :
    (t.translate a).run k =
      .done ((entryOf (m.page a.directoryIndex a.tableIndex)).translate a) k := by
  unfold translate
  rw [Transition.run_bind, h.run_entry_address, andThen_done, Transition.run_pure]

end Held

end PageTable

end SoftPaging
