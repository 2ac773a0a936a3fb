import Mathlib
import SoftPaging.Parameters
import SoftPaging.Proofs.Paging.Mapping
import SoftPaging.Proofs.Pool.Block

/-!
# The shape of a page table

What a page table means, apart from where it lies: a `TableMap` says which slots have a second-level
table, in which frame, and which pages that maps. The frames that a table owns besides its directory
are the blocks of its map (`TableMap.blocks`).

Ownership is kept as a list of blocks up to permutation, so what matters about a change to one
position is that the blocks of the position stand apart from those of the others: `gather_split`
takes them out, and `gather_update` puts new ones in their place.
-/

namespace SoftPaging

/-! ## Blocks by position -/

section Gather

variable {n : Nat}

/-- The blocks of all positions together. -/
def gather (blocks : Fin n → List Block) : List Block :=
  (List.finRange n).flatMap blocks

theorem gather_split (blocks : Fin n → List Block) (i : Fin n) :
    (gather blocks).Perm (blocks i ++ gather (Function.update blocks i [])) := by
  have hperm := List.perm_cons_erase (List.mem_finRange i)
  have hrest : ((List.finRange n).erase i).flatMap (Function.update blocks i []) =
      ((List.finRange n).erase i).flatMap blocks := by
    refine List.flatMap_congr fun j hj => ?_
    have hne : j ≠ i := fun heq => (List.nodup_finRange n).not_mem_erase (heq ▸ hj)
    rw [Function.update_of_ne hne]
  have hwith := hperm.flatMap_right blocks
  have hwithout := hperm.flatMap_right (Function.update blocks i [])
  rw [List.flatMap_cons] at hwith hwithout
  rw [Function.update_self, List.nil_append, hrest] at hwithout
  exact hwith.trans (List.Perm.append_left _ hwithout.symm)

theorem gather_update (blocks : Fin n → List Block) (i : Fin n) (own : List Block) :
    (gather (Function.update blocks i own)).Perm
      (own ++ gather (Function.update blocks i [])) := by
  have h := gather_split (Function.update blocks i own) i
  rwa [Function.update_self, Function.update_idem] at h

theorem gather_empty {blocks : Fin n → List Block} (h : ∀ i, blocks i = []) :
    gather blocks = [] := List.flatMap_eq_nil_iff.2 fun i _ => h i

theorem mem_framesOf_gather {blocks : Fin n → List Block} {f : Nat} :
    f ∈ framesOf (gather blocks) ↔ ∃ i, f ∈ framesOf (blocks i) := by
  simp only [mem_framesOf, gather, List.mem_flatMap, List.mem_finRange, true_and]
  constructor
  · rintro ⟨b, ⟨i, hb⟩, hf⟩
    exact ⟨i, b, hb, hf⟩
  · rintro ⟨i, b, hb, hf⟩
    exact ⟨b, ⟨i, hb⟩, hf⟩

end Gather

/-! ## Second-level tables and their pages -/

/-- A second-level table: its frame and the pages it maps. -/
@[ext] structure Leaf where
  frame : Nat
  pages : Fin tableEntries → Option Page

/-- The block of a page, if there is one. -/
def pageBlocks : Option Page → List Block
  | some pg => [⟨pg.frame, 1⟩]
  | none => []

@[simp] theorem pageBlocks_none : pageBlocks none = [] := rfl

@[simp] theorem pageBlocks_some (pg : Page) : pageBlocks (some pg) = [⟨pg.frame, 1⟩] := rfl

theorem mem_framesOf_pageBlocks {o : Option Page} {f : Nat} :
    f ∈ framesOf (pageBlocks o) ↔ ∃ pg, o = some pg ∧ pg.frame = f := by
  cases o with
  | none => simp
  | some pg => simp [Block.mem_one, eq_comm]

namespace Leaf

/-- A second-level table that maps nothing. -/
def vacant (f : Nat) : Leaf := ⟨f, fun _ => none⟩

/-- The table with the page at one position changed. -/
def setPage (l : Leaf) (j : Fin tableEntries) (o : Option Page) : Leaf :=
  ⟨l.frame, Function.update l.pages j o⟩

/-- The frames of the pages. -/
def pageBlocks (l : Leaf) : List Block :=
  gather fun j => SoftPaging.pageBlocks (l.pages j)

/-- The frames that are owned: that of the table and those of its pages. -/
def blocks (l : Leaf) : List Block := ⟨l.frame, 1⟩ :: l.pageBlocks

@[simp] theorem frame_setPage (l : Leaf) (j : Fin tableEntries) (o : Option Page) :
    (l.setPage j o).frame = l.frame := rfl

@[simp] theorem pages_setPage_self (l : Leaf) (j : Fin tableEntries) (o : Option Page) :
    (l.setPage j o).pages j = o := Function.update_self ..

theorem pages_setPage_of_ne (l : Leaf) {j j' : Fin tableEntries} (o : Option Page)
    (h : j' ≠ j) : (l.setPage j o).pages j' = l.pages j' := Function.update_of_ne h ..

theorem setPage_eq_self (l : Leaf) (j : Fin tableEntries) : l.setPage j (l.pages j) = l :=
  Leaf.ext rfl (Function.update_eq_self ..)

@[simp] theorem pageBlocks_vacant (f : Nat) : (vacant f).pageBlocks = [] :=
  gather_empty fun _ => rfl

/-- Putting a page, or none, at a position. -/
theorem pageBlocks_setPage (l : Leaf) (j : Fin tableEntries) (o : Option Page) :
    (l.setPage j o).pageBlocks.Perm
      (SoftPaging.pageBlocks o ++ (l.setPage j none).pageBlocks) := by
  have hcomp (o : Option Page) : (fun j' => SoftPaging.pageBlocks ((l.setPage j o).pages j')) =
      Function.update (fun j' => SoftPaging.pageBlocks (l.pages j')) j (SoftPaging.pageBlocks o) :=
    Function.comp_update SoftPaging.pageBlocks l.pages j o
  unfold pageBlocks
  rw [hcomp o, hcomp none]
  exact gather_update _ j _

theorem blocks_setPage (l : Leaf) (j : Fin tableEntries) (o : Option Page) :
    (l.setPage j o).blocks.Perm (SoftPaging.pageBlocks o ++ (l.setPage j none).blocks) :=
  ((l.pageBlocks_setPage j o).cons _).trans List.perm_middle.symm

theorem blocks_split (l : Leaf) {j : Fin tableEntries} {o : Option Page} (h : l.pages j = o) :
    l.blocks.Perm (SoftPaging.pageBlocks o ++ (l.setPage j none).blocks) := by
  have hsplit := l.blocks_setPage j o
  rwa [← h, setPage_eq_self, h] at hsplit

theorem mem_framesOf_pageBlocks {l : Leaf} {f : Nat} :
    f ∈ framesOf l.pageBlocks ↔ ∃ j pg, l.pages j = some pg ∧ pg.frame = f := by
  rw [pageBlocks, mem_framesOf_gather]
  exact exists_congr fun j => SoftPaging.mem_framesOf_pageBlocks

theorem mem_framesOf_blocks {l : Leaf} {f : Nat} :
    f ∈ framesOf l.blocks ↔ f = l.frame ∨ ∃ j pg, l.pages j = some pg ∧ pg.frame = f := by
  rw [blocks, mem_framesOf_cons, mem_framesOf_pageBlocks, Block.mem_one]

theorem count_eq_one {l : Leaf} {b : Block} (hb : b ∈ l.blocks) : b.count = 1 := by
  rcases List.mem_cons.1 hb with rfl | hpage
  · rfl
  · obtain ⟨j, -, hj⟩ := List.mem_flatMap.1 hpage
    cases hpg : l.pages j with
    | none => simp [hpg] at hj
    | some pg =>
      rw [hpg, pageBlocks_some, List.mem_singleton] at hj
      rw [hj]

end Leaf

/-! ## Page tables -/

/-- The second-level tables of a page table, by their slots. -/
abbrev TableMap := Fin directorySlots → Option Leaf

/-- The blocks of a second-level table, if there is one. -/
def leafBlocks : Option Leaf → List Block
  | some l => l.blocks
  | none => []

@[simp] theorem leafBlocks_none : leafBlocks none = [] := rfl

@[simp] theorem leafBlocks_some (l : Leaf) : leafBlocks (some l) = l.blocks := rfl

namespace TableMap

/-- A page table without second-level tables. -/
def vacant : TableMap := fun _ => none

/-- The map with one slot changed. -/
def setSlot (m : TableMap) (i : Fin directorySlots) (l? : Option Leaf) : TableMap :=
  Function.update m i l?

/-- The page at a position. -/
def page (m : TableMap) (i : Fin directorySlots) (j : Fin tableEntries) : Option Page :=
  (m i).bind (·.pages j)

/-- The frames that are owned, besides that of the directory. -/
def blocks (m : TableMap) : List Block :=
  gather fun i => leafBlocks (m i)

@[simp] theorem setSlot_self (m : TableMap) (i : Fin directorySlots) (l? : Option Leaf) :
    m.setSlot i l? i = l? := Function.update_self ..

theorem setSlot_of_ne (m : TableMap) {i i' : Fin directorySlots} (l? : Option Leaf)
    (h : i' ≠ i) : m.setSlot i l? i' = m i' := Function.update_of_ne h ..

@[simp] theorem setSlot_setSlot (m : TableMap) (i : Fin directorySlots) (l? l?' : Option Leaf) :
    (m.setSlot i l?).setSlot i l?' = m.setSlot i l?' := Function.update_idem ..

theorem setSlot_eq_self (m : TableMap) {i : Fin directorySlots} {l? : Option Leaf}
    (h : m i = l?) : m.setSlot i l? = m := by
  subst h
  exact Function.update_eq_self ..

theorem page_eq_some {m : TableMap} {i : Fin directorySlots} {j : Fin tableEntries} {pg : Page} :
    m.page i j = some pg ↔ ∃ l, m i = some l ∧ l.pages j = some pg :=
  Option.bind_eq_some_iff

theorem page_of_slot {m : TableMap} {i : Fin directorySlots} {l : Leaf} (h : m i = some l)
    (j : Fin tableEntries) : m.page i j = l.pages j := by
  rw [page, h, Option.bind_some]

theorem page_of_closed {m : TableMap} {i : Fin directorySlots} (h : m i = none)
    (j : Fin tableEntries) : m.page i j = none := by
  rw [page, h, Option.bind_none]

/-- The pages of the other slots do not depend on a slot. -/
theorem page_setSlot_of_ne (m : TableMap) {i i' : Fin directorySlots} (l? : Option Leaf)
    (h : i' ≠ i) (j : Fin tableEntries) : (m.setSlot i l?).page i' j = m.page i' j := by
  rw [page, setSlot_of_ne _ _ h, page]

@[simp] theorem page_setSlot_self (m : TableMap) (i : Fin directorySlots) (l : Leaf)
    (j : Fin tableEntries) : (m.setSlot i (some l)).page i j = l.pages j :=
  page_of_slot (setSlot_self ..) j

/-- Opening a slot that was not open changes no page. -/
theorem page_setSlot_vacant (m : TableMap) {i : Fin directorySlots} (h : m i = none) (f : Nat)
    (i' : Fin directorySlots) (j : Fin tableEntries) :
    (m.setSlot i (some (.vacant f))).page i' j = m.page i' j := by
  by_cases hi : i' = i
  · subst hi
    rw [page_setSlot_self, page, h]
    rfl
  · exact m.page_setSlot_of_ne _ hi j

/-- A second-level table with the pages of its slot may take that slot with one page changed: the
pages at the other positions are what they were. -/
theorem page_setSlot_setPage (m : TableMap) {i : Fin directorySlots} {l : Leaf}
    (h : ∀ j, l.pages j = m.page i j) (j : Fin tableEntries) (o : Option Page)
    (i' : Fin directorySlots) (j' : Fin tableEntries) :
    (m.setSlot i (some (l.setPage j o))).page i' j' =
      if i' = i ∧ j' = j then o else m.page i' j' := by
  by_cases hi : i' = i
  · subst hi
    rw [page_setSlot_self]
    by_cases hj : j' = j
    · subst hj
      rw [Leaf.pages_setPage_self, if_pos ⟨rfl, rfl⟩]
    · rw [Leaf.pages_setPage_of_ne _ _ hj, h, if_neg fun hand => hj hand.2]
  · rw [m.page_setSlot_of_ne _ hi, if_neg fun hand => hi hand.1]

/-- Changing the page of one position changes no other. -/
theorem page_setPage (m : TableMap) {i : Fin directorySlots} {l : Leaf} (h : m i = some l)
    (j : Fin tableEntries) (o : Option Page) (i' : Fin directorySlots) (j' : Fin tableEntries) :
    (m.setSlot i (some (l.setPage j o))).page i' j' =
      if i' = i ∧ j' = j then o else m.page i' j' :=
  m.page_setSlot_setPage (fun j => (page_of_slot h j).symm) j o i' j'

@[simp] theorem blocks_vacant : vacant.blocks = [] :=
  gather_empty fun _ => rfl

/-- Putting a second-level table, or none, into a slot. -/
theorem blocks_setSlot (m : TableMap) (i : Fin directorySlots) (l? : Option Leaf) :
    (m.setSlot i l?).blocks.Perm (leafBlocks l? ++ (m.setSlot i none).blocks) := by
  have hcomp (l? : Option Leaf) : (fun i' => leafBlocks (m.setSlot i l? i')) =
      Function.update (fun i' => leafBlocks (m i')) i (leafBlocks l?) :=
    Function.comp_update leafBlocks m i l?
  unfold blocks
  rw [hcomp l?, hcomp none]
  exact gather_update _ i _

theorem mem_framesOf_blocks {m : TableMap} {f : Nat} :
    f ∈ framesOf m.blocks ↔ ∃ i l, m i = some l ∧ f ∈ framesOf l.blocks := by
  rw [blocks, mem_framesOf_gather]
  refine exists_congr fun i => ?_
  cases h : m i with
  | none => simp
  | some l => simp

theorem count_eq_one {m : TableMap} {b : Block} (hb : b ∈ m.blocks) : b.count = 1 := by
  obtain ⟨i, -, hi⟩ := List.mem_flatMap.1 hb
  cases hl : m i with
  | none => simp [hl] at hi
  | some l =>
    rw [hl, leafBlocks_some] at hi
    exact Leaf.count_eq_one hi

theorem leaf_mem_blocks {m : TableMap} {i : Fin directorySlots} {l : Leaf} (hl : m i = some l) :
    l.frame ∈ framesOf m.blocks :=
  mem_framesOf_blocks.2 ⟨i, l, hl, Leaf.mem_framesOf_blocks.2 (.inl rfl)⟩

theorem page_mem_blocks {m : TableMap} {i : Fin directorySlots} {j : Fin tableEntries} {pg : Page}
    (hpg : m.page i j = some pg) : pg.frame ∈ framesOf m.blocks := by
  obtain ⟨l, hl, hpg⟩ := page_eq_some.1 hpg
  exact mem_framesOf_blocks.2 ⟨i, l, hl, Leaf.mem_framesOf_blocks.2 (.inr ⟨j, pg, hpg, rfl⟩)⟩

end TableMap

end SoftPaging
