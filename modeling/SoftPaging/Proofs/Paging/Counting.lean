import Mathlib
import SoftPaging.Paging.Layout
import SoftPaging.Proofs.Paging.Shows
import SoftPaging.Proofs.Pool.Count

/-!
# Counting the frames of a page table

Besides its directory a page table owns one frame for each slot that is open and one for each page
that is resident (`TableMap.frameCount_blocks`). The two numbers are the lengths of the lists that
RAM shows (`Shows.length_leavesIn`, `Shows.length_mappingsIn`), so what a copy of the table will cost
can be read off before it is made.

A table that has no slot and no page but those of another owns fewer frames as soon as it lacks one of
them (`TableMap.Under.frameCount_lt`).
-/

namespace SoftPaging

/-! ## Positions that hold something -/

section Positions

variable {n : Nat} {α : Type} {f g : Fin n → Option α}

/-- How many positions hold something. -/
def occupied (f : Fin n → Option α) : Nat := ∑ i, if (f i).isSome = true then 1 else 0

theorem occupied_congr {β : Type} {g : Fin n → Option β} (h : ∀ i, (f i).isSome = (g i).isSome) :
    occupied f = occupied g := by
  unfold occupied
  refine Finset.sum_congr rfl fun i _ => ?_
  rw [h i]

theorem indicator_le {i : Fin n} (h : (f i).isSome = true → (g i).isSome = true) :
    (if (f i).isSome = true then 1 else 0) ≤ if (g i).isSome = true then 1 else 0 := by
  by_cases hf : (f i).isSome = true
  · rw [if_pos hf, if_pos (h hf)]
  · rw [if_neg hf]
    exact Nat.zero_le _

theorem occupied_le (h : ∀ i, (f i).isSome = true → (g i).isSome = true) :
    occupied f ≤ occupied g :=
  Finset.sum_le_sum fun i _ => indicator_le (h i)

theorem occupied_lt (h : ∀ i, (f i).isSome = true → (g i).isSome = true) {i : Fin n}
    (hg : (g i).isSome = true) (hf : f i = none) : occupied f < occupied g := by
  refine Finset.sum_lt_sum (fun i _ => indicator_le (h i)) ⟨i, Finset.mem_univ i, ?_⟩
  rw [hf, if_pos hg]
  exact Nat.one_pos

theorem occupied_pos {i : Fin n} (h : (f i).isSome = true) : 0 < occupied f := by
  refine Finset.sum_pos' (fun _ _ => Nat.zero_le _) ⟨i, Finset.mem_univ i, ?_⟩
  rw [if_pos h]
  exact Nat.one_pos

/-- A sum that is larger at one position only, and there by one. -/
theorem sum_le_succ {f g : Fin n → Nat} (i : Fin n)
    (h : ∀ i', f i' ≤ g i' + if i' = i then 1 else 0) : ∑ i', f i' ≤ (∑ i', g i') + 1 := by
  refine (Finset.sum_le_sum fun i' _ => h i').trans ?_
  rw [Finset.sum_add_distrib, Finset.sum_ite_eq' Finset.univ i, if_pos (Finset.mem_univ i)]

theorem occupied_le_succ {i : Fin n}
    (h : ∀ i', i' ≠ i → (f i').isSome = true → (g i').isSome = true) :
    occupied f ≤ occupied g + 1 := by
  refine sum_le_succ i fun i' => ?_
  by_cases hi : i' = i
  · rw [if_pos hi]
    split <;> omega
  · exact (indicator_le (h i' hi)).trans (Nat.le_add_right _ _)

/-- The length of a list that is gathered from positions. -/
theorem length_filterMap_finRange (f : Fin n → Option α) :
    ((List.finRange n).filterMap f).length = occupied f := by
  rw [List.length_filterMap_eq_countP, occupied, Fin.sum_univ_def]
  induction List.finRange n with
  | nil => rfl
  | cons i is ih => rw [List.countP_cons, List.map_cons, List.sum_cons, ih, Nat.add_comm]

theorem frameCount_gather (blocks : Fin n → List Block) :
    frameCount (gather blocks) = ∑ i, frameCount (blocks i) := by
  rw [gather, Fin.sum_univ_def]
  induction List.finRange n with
  | nil => rfl
  | cons i is ih => rw [List.flatMap_cons, frameCount_append, ih, List.map_cons, List.sum_cons]

end Positions

theorem frameCount_pageBlocks (o : Option Page) :
    frameCount (pageBlocks o) = if o.isSome = true then 1 else 0 := by
  cases o <;> rfl

namespace TableMap

variable {m n : TableMap}

/-- How many slots are open. -/
def tableCount (m : TableMap) : Nat := occupied m

/-- How many pages are resident. -/
def pageCount (m : TableMap) : Nat := ∑ i, occupied (m.page i)

theorem frameCount_leafBlocks (m : TableMap) (i : Fin directorySlots) :
    frameCount (leafBlocks (m i)) =
      (if (m i).isSome = true then 1 else 0) + occupied (m.page i) := by
  cases hl : m i with
  | none => simp [occupied, page_of_closed hl]
  | some l =>
    simp only [leafBlocks_some, Leaf.blocks, frameCount_cons, Leaf.pageBlocks, frameCount_gather,
      frameCount_pageBlocks, occupied, page_of_slot hl, Option.isSome_some, if_true]

/-- A frame for each second-level table, and one for each page. -/
theorem frameCount_blocks (m : TableMap) : frameCount m.blocks = m.tableCount + m.pageCount := by
  rw [blocks, frameCount_gather, tableCount, pageCount, occupied, ← Finset.sum_add_distrib]
  exact Finset.sum_congr rfl fun i _ => m.frameCount_leafBlocks i

/-- The slots and the pages of one map are among those of another. -/
structure Under (n m : TableMap) : Prop where
  slot : ∀ i, (n i).isSome = true → (m i).isSome = true
  page : ∀ i j, (n.page i j).isSome = true → (m.page i j).isSome = true

/-- A slot or a page of `m` is not in `n`. -/
def Lacks (n m : TableMap) : Prop :=
  (∃ i, (m i).isSome = true ∧ n i = none) ∨ ∃ i j, (m.page i j).isSome = true ∧ n.page i j = none

theorem Under.pageCount_le (h : n.Under m) : n.pageCount ≤ m.pageCount :=
  Finset.sum_le_sum fun i _ => occupied_le (h.page i)

theorem Under.frameCount_lt (h : n.Under m) (hlacks : n.Lacks m) :
    frameCount n.blocks < frameCount m.blocks := by
  rw [frameCount_blocks, frameCount_blocks]
  rcases hlacks with ⟨i, hm, hn⟩ | ⟨i, j, hm, hn⟩
  · exact Nat.add_lt_add_of_lt_of_le (occupied_lt h.slot hm hn) h.pageCount_le
  · refine Nat.add_lt_add_of_le_of_lt (occupied_le h.slot) ?_
    exact Finset.sum_lt_sum (fun i _ => occupied_le (h.page i))
      ⟨i, Finset.mem_univ i, occupied_lt (h.page i) hm hn⟩

/-- A page takes a frame of its own and one for the table that maps it. -/
theorem two_le_frameCount {i : Fin directorySlots} {j : Fin tableEntries} {pg : Page}
    (h : m.page i j = some pg) : 2 ≤ frameCount m.blocks := by
  obtain ⟨l, hl, -⟩ := page_eq_some.1 h
  have htables : 0 < m.tableCount := occupied_pos (Option.isSome_iff_exists.2 ⟨l, hl⟩)
  have hpages : 0 < m.pageCount :=
    Finset.sum_pos' (fun _ _ => Nat.zero_le _)
      ⟨i, Finset.mem_univ i, occupied_pos (Option.isSome_iff_exists.2 ⟨pg, h⟩)⟩
  rw [frameCount_blocks]
  omega

/-- One more slot and one more page are two more frames. -/
theorem frameCount_le_add_two {i : Fin directorySlots} {j : Fin tableEntries}
    (hslot : ∀ i', i' ≠ i → (n i').isSome = true → (m i').isSome = true)
    (hpage : ∀ i' j', ¬ (i' = i ∧ j' = j) → (n.page i' j').isSome = true →
      (m.page i' j').isSome = true) : frameCount n.blocks ≤ frameCount m.blocks + 2 := by
  have hslots : n.tableCount ≤ m.tableCount + 1 := occupied_le_succ hslot
  have hrow (i' : Fin directorySlots) :
      occupied (n.page i') ≤ occupied (m.page i') + if i' = i then 1 else 0 := by
    by_cases hi : i' = i
    · rw [if_pos hi]
      exact occupied_le_succ (i := j) fun j' hj => hpage i' j' fun hat => hj hat.2
    · rw [if_neg hi, Nat.add_zero]
      exact occupied_le fun j' => hpage i' j' fun hat => hi hat.1
  have hpages : n.pageCount ≤ m.pageCount + 1 := sum_le_succ i hrow
  rw [frameCount_blocks, frameCount_blocks]
  omega

end TableMap

/-! ## What RAM shows -/

namespace PageTable.Shows

variable {t : PageTable} {ram : Ram} {m : TableMap}

/-- The second-level tables that RAM shows are those of the map. -/
theorem leavesIn_eq (h : t.Shows ram m) :
    t.leavesIn ram = (List.finRange directorySlots).filterMap fun i =>
      (m i).map fun l => (i, l.table) := by
  unfold leavesIn
  refine List.filterMap_congr fun i _ => ?_
  rw [h.slotIn_eq i, Option.map_map]
  rfl

theorem length_leavesIn (h : t.Shows ram m) : (t.leavesIn ram).length = m.tableCount := by
  rw [h.leavesIn_eq, length_filterMap_finRange]
  exact occupied_congr fun i => Option.isSome_map

/-- The entries of a second-level table that are valid are those of its pages. -/
theorem validIn_eq {i : Fin directorySlots} {l : Leaf} (h : t.Shows ram m) (hl : m i = some l) :
    l.table.validIn ram = (List.finRange tableEntries).filterMap fun j =>
      (l.pages j).map fun pg => (j, pg.entry) := by
  unfold EntryTable.validIn
  refine List.filterMap_congr fun j _ => ?_
  rw [(h.leaf_shows i l hl).entryIn_eq j]
  cases l.pages j <;> simp

/-- The pages that RAM shows are those of the map, each with its entry. -/
theorem mappingsIn_eq (h : t.Shows ram m) :
    t.mappingsIn ram = (List.finRange directorySlots).flatMap fun i =>
      (List.finRange tableEntries).filterMap fun j =>
        (m.page i j).map fun pg => (pageAt i j, pg.entry) := by
  have hlist : ∀ is : List (Fin directorySlots),
      ((is.filterMap fun i => (m i).map fun l => (i, l.table)).flatMap fun x =>
        (x.2.validIn ram).map fun y => (pageAt x.1 y.1, y.2)) =
      is.flatMap fun i => (List.finRange tableEntries).filterMap fun j =>
        (m.page i j).map fun pg => (pageAt i j, pg.entry) := by
    intro is
    induction is with
    | nil => rfl
    | cons i is ih =>
      rw [List.flatMap_cons, ← ih, List.filterMap_cons]
      cases hl : m i with
      | none => simp [TableMap.page_of_closed hl]
      | some l =>
        simp only [Option.map_some, List.flatMap_cons, h.validIn_eq hl, List.map_filterMap,
          TableMap.page_of_slot hl, Option.map_map]
        rfl
  unfold mappingsIn
  rw [h.leavesIn_eq]
  exact hlist _

theorem length_mappingsIn (h : t.Shows ram m) : (t.mappingsIn ram).length = m.pageCount := by
  rw [h.mappingsIn_eq, List.length_flatMap, ← Fin.sum_univ_def, TableMap.pageCount]
  refine Finset.sum_congr rfl fun i _ => ?_
  rw [length_filterMap_finRange]
  exact occupied_congr fun j => Option.isSome_map

end PageTable.Shows

end SoftPaging
