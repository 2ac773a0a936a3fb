import Mathlib
import SoftPaging.Paging.Table
import SoftPaging.Proofs.Paging.Shape
import SoftPaging.Proofs.Pool.Holding

/-!
# Page tables in RAM and their maps

`PageTable.Shows t ram m` says that the page table `t` lies in RAM as the map `m` says, word for word:
every slot and every entry is the word of what the map has there. A map is shown by the bytes of the
directory and of the second-level tables alone (`Shows.congr`), and writing a slot or an entry shows
the map with that slot or entry changed.
-/

namespace SoftPaging

/-- The second-level table that lies in the frame of a leaf. -/
def Leaf.table (l : Leaf) : EntryTable := ⟨frameAt l.frame⟩

theorem Leaf.table_congr {l l' : Leaf} (h : l.frame = l'.frame) : l.table = l'.table := by
  rw [table, table, h]

theorem Leaf.map_table_congr {l? l?' : Option Leaf}
    (h : l?.map Leaf.frame = l?'.map Leaf.frame) : l?.map Leaf.table = l?'.map Leaf.table := by
  have hfactor : Leaf.table = (fun f => EntryTable.mk (frameAt f)) ∘ Leaf.frame := rfl
  rw [hfactor, ← Option.map_map, h, Option.map_map]

namespace EntryTable

variable {leaf : EntryTable} {ram ram' : Ram} {f : Nat}

/-- The second-level table in frame `f` has the entries of the pages, and no other. -/
structure Shows (leaf : EntryTable) (ram : Ram) (l : Leaf) : Prop where
  frame_eq : leaf = l.table
  frame_lt : l.frame < 1048576
  entryIn_eq : ∀ j, leaf.entryIn ram j = entryOf (l.pages j)
  page_lt : ∀ j pg, l.pages j = some pg → pg.frame < 1048576

theorem Shows.congr {l : Leaf} (h : leaf.Shows ram l) (hsame : ram.SameFrame ram' l.frame) :
    leaf.Shows ram' l := by
  refine ⟨h.frame_eq, h.frame_lt, fun j => ?_, h.page_lt⟩
  rw [← h.entryIn_eq j]
  refine entryIn_congr fun i hlow hhigh => ?_
  rw [h.frame_eq, Leaf.table, val_frameAt h.frame_lt] at hlow hhigh
  exact hsame.byte hlow hhigh

theorem sameOff_setEntryIn (ram : Ram) {l : Leaf} (hl : l.frame < 1048576) (j : Fin tableEntries)
    (e : PageEntry) : ram.SameOff (l.table.setEntryIn ram j e) l.frame := by
  have hj := j.isLt
  unfold setEntryIn entryAddress Leaf.table
  rw [val_frameAt hl]
  simp only [tableEntries] at hj
  refine Ram.sameOff_storeWord ram _ (by omega) ?_
  simp only [pageSize]
  omega

/-- Writing an entry changes the page at its position. -/
theorem Shows.setEntry {l : Leaf} (h : leaf.Shows ram l)
    (hsize : l.frame * pageSize + pageSize ≤ ram.size) (j : Fin tableEntries) (o : Option Page)
    (ho : ∀ pg, o = some pg → pg.frame < 1048576) :
    leaf.Shows (leaf.setEntryIn ram j (entryOf o)) (l.setPage j o) := by
  have hval : leaf.frame.val = l.frame * pageSize := by
    rw [h.frame_eq, Leaf.table, val_frameAt h.frame_lt]
  refine ⟨h.frame_eq, h.frame_lt, fun j' => ?_, fun j' pg hpg => ?_⟩
  · by_cases hj : j' = j
    · subst hj
      rw [entryIn_setEntryIn_self _ (by rw [hval]; exact hsize), Leaf.pages_setPage_self]
    · rw [entryIn_setEntryIn_of_ne _ (Ne.symm hj), Leaf.pages_setPage_of_ne _ _ hj]
      exact h.entryIn_eq j'
  · by_cases hj : j' = j
    · subst hj
      rw [Leaf.pages_setPage_self] at hpg
      exact ho pg hpg
    · rw [Leaf.pages_setPage_of_ne _ _ hj] at hpg
      exact h.page_lt j' pg hpg

/-- A frame of zeros is a second-level table that maps nothing. -/
theorem shows_vacant (hf : f < 1048576) (hzero : ∀ j, j / pageSize = f → ram.byte j = 0) :
    (EntryTable.mk (frameAt f)).Shows ram (Leaf.vacant f) := by
  refine ⟨rfl, hf, fun j => ?_, fun j pg hpg => by cases hpg⟩
  have hj := j.isLt
  simp only [tableEntries] at hj
  have hbyte (i : Nat) (hi : i < 4) : ram.byte (f * pageSize + 4 * j.val + i) = 0 := by
    refine hzero _ ?_
    simp only [pageSize]
    omega
  unfold entryIn entryAddress Ram.word
  rw [val_frameAt hf]
  have h0 := hbyte 0 (by decide)
  rw [Nat.add_zero] at h0
  rw [h0, hbyte 1 (by decide), hbyte 2 (by decide), hbyte 3 (by decide)]
  rfl

end EntryTable

namespace PageTable

variable {t : PageTable} {ram ram' : Ram} {m : TableMap} {i : Fin directorySlots} {l : Leaf}

/-- The page table lies in RAM as the map says. -/
structure Shows (t : PageTable) (ram : Ram) (m : TableMap) : Prop where
  aligned : t.directory.isPageAligned = true
  slotIn_eq : ∀ i, t.slotIn ram i = (m i).map Leaf.table
  leaf_shows : ∀ i l, m i = some l → l.table.Shows ram l

/-- The frame of the directory. -/
def frame (t : PageTable) : Nat := t.directory.number.val

/-- The frames that a page table owns under a map. -/
def blocks (t : PageTable) (m : TableMap) : List Block := ⟨t.frame, 1⟩ :: m.blocks

/-- The frames that hold the tables themselves. -/
def skeleton (t : PageTable) (m : TableMap) : Set Nat :=
  {f | f = t.frame ∨ ∃ i l, m i = some l ∧ f = l.frame}

theorem frame_lt (t : PageTable) : t.frame < 1048576 := t.directory.number_lt

theorem skeleton_subset (t : PageTable) (m : TableMap) : t.skeleton m ⊆ framesOf (t.blocks m) := by
  rintro f (rfl | ⟨i, l, hl, rfl⟩)
  · exact mem_framesOf_self _ _
  · exact mem_framesOf_cons.2 (.inr (TableMap.leaf_mem_blocks hl))

/-- Which frames hold the tables is a matter of the slots alone. -/
theorem skeleton_congr (t : PageTable) {m m' : TableMap}
    (h : ∀ i, (m' i).map Leaf.frame = (m i).map Leaf.frame) : t.skeleton m' = t.skeleton m := by
  have hslot (f : Nat) (i : Fin directorySlots) :
      (∃ l, m' i = some l ∧ f = l.frame) ↔ ∃ l, m i = some l ∧ f = l.frame := by
    have hmap : (m' i).map Leaf.frame = some f ↔ (m i).map Leaf.frame = some f := by rw [h i]
    simp only [Option.map_eq_some_iff] at hmap
    simpa only [eq_comm (a := f)] using hmap
  ext f
  exact or_congr_right (exists_congr (hslot f))

theorem page_mem_blocks (t : PageTable) {m : TableMap} {i : Fin directorySlots}
    {j : Fin tableEntries} {pg : Page} (hpg : m.page i j = some pg) :
    pg.frame ∈ framesOf (t.blocks m) :=
  mem_framesOf_cons.2 (.inr (TableMap.page_mem_blocks hpg))

namespace Shows

theorem directory_eq (h : t.Shows ram m) : t.directory = frameAt t.frame :=
  (frameAt_number h.aligned).symm

theorem directory_val (h : t.Shows ram m) : t.directory.val = t.frame * pageSize :=
  Address.val_eq_of_aligned h.aligned

/-- A map is shown by the frames that hold the tables. -/
theorem congr (h : t.Shows ram m) (hsame : ∀ f ∈ t.skeleton m, ram.SameFrame ram' f) :
    t.Shows ram' m := by
  refine ⟨h.aligned, fun i => ?_, fun i l hl => ?_⟩
  · rw [← h.slotIn_eq i]
    refine slotIn_congr fun j hlow hhigh => ?_
    rw [h.directory_val] at hlow hhigh
    exact (hsame t.frame (.inl rfl)).byte hlow hhigh
  · exact (h.leaf_shows i l hl).congr (hsame l.frame (.inr ⟨i, l, hl, rfl⟩))

theorem sameOff_setSlotIn (h : t.Shows ram m) (ram' : Ram) (i : Fin directorySlots)
    (leaf? : Option EntryTable) : ram'.SameOff (t.setSlotIn ram' i leaf?) t.frame := by
  have hi := i.isLt
  unfold setSlotIn slotAddress
  rw [h.directory_val]
  simp only [directorySlots] at hi
  refine Ram.sameOff_storeWord ram' _ (by omega) ?_
  simp only [pageSize]
  omega

/-- Writing a slot changes the second-level table there. -/
theorem setSlot (h : t.Shows ram m) (hsize : t.frame * pageSize + pageSize ≤ ram.size)
    (i : Fin directorySlots) (l? : Option Leaf)
    (hleaf : ∀ l, l? = some l → 0 < l.frame ∧ l.table.Shows ram l)
    (hapart : ∀ i' l, m.setSlot i l? i' = some l → l.frame ≠ t.frame) :
    t.Shows (t.setSlotIn ram i (l?.map Leaf.table)) (m.setSlot i l?) := by
  have hoff := h.sameOff_setSlotIn ram i (l?.map Leaf.table)
  have hsize' : t.directory.val + pageSize ≤ ram.size := by
    rw [h.directory_val]
    exact hsize
  refine ⟨h.aligned, fun i' => ?_, fun i' l hl => ?_⟩
  · by_cases hi : i' = i
    · subst hi
      rw [TableMap.setSlot_self]
      cases hl : l? with
      | none => exact slotIn_setSlotIn_none hsize'
      | some l =>
        obtain ⟨hpos, hshows⟩ := hleaf l hl
        refine slotIn_setSlotIn_some hsize' ?_
        rw [Leaf.table, val_frameAt hshows.frame_lt]
        simp only [pageSize]
        omega
    · rw [slotIn_setSlotIn_of_ne _ (Ne.symm hi), TableMap.setSlot_of_ne _ _ hi]
      exact h.slotIn_eq i'
  · have hne := hapart i' l hl
    have hshows : l.table.Shows ram l := by
      by_cases hi : i' = i
      · subst hi
        rw [TableMap.setSlot_self] at hl
        exact (hleaf l hl).2
      · rw [TableMap.setSlot_of_ne _ _ hi] at hl
        exact h.leaf_shows i' l hl
    exact hshows.congr fun j hj => hoff.byte_eq j (hj ▸ hne)

/-- Writing an entry of a second-level table changes the page at its position. -/
theorem setEntry (h : t.Shows ram m) (hl : m i = some l)
    (hsize : l.frame * pageSize + pageSize ≤ ram.size) (j : Fin tableEntries) (o : Option Page)
    (ho : ∀ pg, o = some pg → pg.frame < 1048576) (hdir : l.frame ≠ t.frame)
    (hapart : ∀ i' l', i' ≠ i → m i' = some l' → l'.frame ≠ l.frame) :
    t.Shows (l.table.setEntryIn ram j (entryOf o)) (m.setSlot i (some (l.setPage j o))) := by
  have hoff : ram.SameOff (l.table.setEntryIn ram j (entryOf o)) l.frame :=
    EntryTable.sameOff_setEntryIn ram (h.leaf_shows i l hl).frame_lt j (entryOf o)
  have hsame {f : Nat} (hf : f ≠ l.frame) : ram.SameFrame (l.table.setEntryIn ram j (entryOf o)) f :=
    fun j' hj' => hoff.byte_eq j' (hj' ▸ hf)
  refine ⟨h.aligned, fun i' => ?_, fun i' l' hl' => ?_⟩
  · have hslot : t.slotIn (l.table.setEntryIn ram j (entryOf o)) i' = t.slotIn ram i' := by
      refine slotIn_congr fun j' hlow hhigh => ?_
      rw [h.directory_val] at hlow hhigh
      exact (hsame hdir.symm).byte hlow hhigh
    rw [hslot, h.slotIn_eq i']
    by_cases hi : i' = i
    · subst hi
      rw [hl, TableMap.setSlot_self]
      rfl
    · rw [TableMap.setSlot_of_ne _ _ hi]
  · by_cases hi : i' = i
    · subst hi
      rw [TableMap.setSlot_self] at hl'
      obtain rfl := Option.some.inj hl'
      exact (h.leaf_shows i' l hl).setEntry hsize j o ho
    · rw [TableMap.setSlot_of_ne _ _ hi] at hl'
      exact (h.leaf_shows i' l' hl').congr (hsame (hapart i' l' hi hl'))

/-- The entry of an address is that of the page at its position. -/
theorem entryIn_eq (h : t.Shows ram m) (a : VirtualAddress) :
    t.entryIn ram a = entryOf (m.page a.directoryIndex a.tableIndex) := by
  unfold entryIn TableMap.page
  rw [h.slotIn_eq]
  cases hl : m a.directoryIndex with
  | none => rfl
  | some l => exact (h.leaf_shows _ l hl).entryIn_eq a.tableIndex

end Shows

end PageTable

end SoftPaging
