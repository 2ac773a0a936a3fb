import Mathlib
import SoftPaging.Proofs.Paging.Operations

/-!
# What a program sees of its memory

An `Image` gives the byte at each address that is resident. It knows nothing of frames, and the
operations on page tables act on it in a few words: a page that is mapped is filled with zeros unless
it was resident (`Image.fill`), a slot that is closed takes its addresses along (`Image.closeSlot`),
and a byte that is stored at a resident address is there afterwards (`Image.store`).

A page table shows an image through its map (`TableMap.image`), and the map itself can be read off
RAM (`PageTable.mapIn`).
-/

namespace SoftPaging

/-! ## Images -/

/-- The byte at each address that is resident. -/
abbrev Image := VirtualAddress → Option UInt8

namespace Image

/-- Nothing is resident. -/
def blank : Image := fun _ => none

/-- The page at a position is resident; it is filled with zeros unless it was before. -/
def fill (im : Image) (slot entry : Nat) : Image := fun a =>
  if a.directoryIndex.val = slot ∧ a.tableIndex.val = entry then some ((im a).getD 0) else im a

/-- No address of the slot is resident. -/
def closeSlot (im : Image) (slot : Nat) : Image := fun a =>
  if a.directoryIndex.val = slot then none else im a

/-- What is resident in either, the first before the second. -/
def above (im im' : Image) : Image := fun a => (im a).or (im' a)

/-- A byte is stored at an address, if that is resident. -/
def store (im : Image) (a : VirtualAddress) (v : UInt8) : Image := fun b =>
  if b = a then (im b).map fun _ => v else im b

end Image

/-! ## Addresses by position -/

namespace Address

theorem directoryIndex_val (a : VirtualAddress) : a.directoryIndex.val = a.val / 4194304 := by
  have hlt := a.val_lt
  have hval : a.directoryIndex.val = (a.val >>> 22) &&& (2 ^ 10 - 1) := rfl
  rw [hval, Nat.shiftRight_eq_div_pow, Nat.and_two_pow_sub_one_eq_mod]
  simp only [addressLimit] at hlt
  omega

theorem tableIndex_val (a : VirtualAddress) : a.tableIndex.val = a.val / 4096 % 1024 := by
  have hval : a.tableIndex.val = (a.val >>> 12) &&& (2 ^ 10 - 1) := rfl
  rw [hval, Nat.shiftRight_eq_div_pow, Nat.and_two_pow_sub_one_eq_mod]

/-- An address is determined by its position and its place in the page. -/
theorem eq_of_position {a b : VirtualAddress} (hslot : a.directoryIndex = b.directoryIndex)
    (hentry : a.tableIndex = b.tableIndex) (hoffset : a.pageOffset = b.pageOffset) : a = b := by
  rw [pageOffset_eq, pageOffset_eq] at hoffset
  have hslot : a.val / 4194304 = b.val / 4194304 := by
    rw [← directoryIndex_val, ← directoryIndex_val, hslot]
  have hentry : a.val / 4096 % 1024 = b.val / 4096 % 1024 := by
    rw [← tableIndex_val, ← tableIndex_val, hentry]
  refine Address.ext ?_
  simp only [pageSize] at hoffset
  omega

@[simp] theorem directoryIndex_pageAt (i : Fin directorySlots) (j : Fin tableEntries) :
    (pageAt i j).directoryIndex = i := by
  refine Fin.ext ?_
  have hval : (pageAt i j).val = (i.val * 1024 + j.val) * 4096 := rfl
  have hj := j.isLt
  rw [directoryIndex_val, hval]
  simp only [tableEntries] at hj
  omega

@[simp] theorem tableIndex_pageAt (i : Fin directorySlots) (j : Fin tableEntries) :
    (pageAt i j).tableIndex = j := by
  refine Fin.ext ?_
  have hval : (pageAt i j).val = (i.val * 1024 + j.val) * 4096 := rfl
  have hj := j.isLt
  rw [tableIndex_val, hval]
  simp only [tableEntries] at hj
  omega

/-- The page of an address is the one at its position. -/
theorem pageAt_position (a : VirtualAddress) :
    pageAt a.directoryIndex a.tableIndex = a.pageBase := by
  refine Address.ext ?_
  have hval : (pageAt a.directoryIndex a.tableIndex).val =
      (a.directoryIndex.val * 1024 + a.tableIndex.val) * 4096 := rfl
  rw [hval, directoryIndex_val, tableIndex_val, pageBase_val]
  simp only [pageSize]
  omega

/-- Addresses lie in one page when they have one position. -/
theorem pageBase_eq_iff {a b : VirtualAddress} : b.pageBase = a.pageBase ↔
    b.directoryIndex = a.directoryIndex ∧ b.tableIndex = a.tableIndex := by
  rw [← pageAt_position, ← pageAt_position]
  refine ⟨fun heq => ⟨?_, ?_⟩, fun ⟨hslot, hentry⟩ => by rw [hslot, hentry]⟩
  · simpa using congrArg directoryIndex heq
  · simpa using congrArg tableIndex heq

end Address

variable {t : PageTable} {m m' : TableMap}

/-! ## Reading a map -/

/-- The page that an entry maps. -/
def PageEntry.page? (e : PageEntry) : Option Page :=
  e.frame?.map fun a => ⟨a.number.val, e.isDirty⟩

theorem page?_entryOf {o : Option Page} (h : ∀ pg, o = some pg → pg.frame < 1048576) :
    (entryOf o).page? = o := by
  cases o with
  | none => rfl
  | some pg =>
    have hlt := h pg rfl
    rw [PageEntry.page?, entryOf_some, pg.frame?_entry hlt, Option.map_some, number_frameAt hlt,
      Page.isDirty_entry]

/-- The map that RAM shows for a page table. -/
def PageTable.mapIn (t : PageTable) (ram : Ram) : TableMap := fun i =>
  (t.slotIn ram i).map fun leaf =>
    ⟨leaf.frame.number.val, fun j => (leaf.entryIn ram j).page?⟩

theorem PageTable.Shows.mapIn_eq {ram : Ram} (h : t.Shows ram m) : t.mapIn ram = m := by
  funext i
  unfold PageTable.mapIn
  rw [h.slotIn_eq i]
  cases hl : m i with
  | none => rfl
  | some l =>
    have hleaf := h.leaf_shows i l hl
    have hpages (j : Fin tableEntries) : (l.table.entryIn ram j).page? = l.pages j := by
      rw [hleaf.entryIn_eq j, page?_entryOf (hleaf.page_lt j)]
    exact congrArg some (Leaf.ext (number_frameAt hleaf.frame_lt) (funext hpages))

/-- RAM shows one map only. -/
theorem PageTable.Shows.unique {ram : Ram} (h : t.Shows ram m) (h' : t.Shows ram m') : m = m' :=
  h.mapIn_eq.symm.trans h'.mapIn_eq

/-! ## The image of a map -/

/-- What the pages of a map hold. -/
def TableMap.image (m : TableMap) (ram : Ram) : Image := fun a =>
  (m.page a.directoryIndex a.tableIndex).map fun pg =>
    ram.byte (pg.frame * pageSize + a.pageOffset)

namespace TableMap

@[simp] theorem image_vacant (ram : Ram) : vacant.image ram = Image.blank := rfl

theorem image_of_page {a : VirtualAddress} {pg : Page}
    (h : m.page a.directoryIndex a.tableIndex = some pg) (ram : Ram) :
    m.image ram a = some (ram.byte (pg.frame * pageSize + a.pageOffset)) := by
  rw [image, h, Option.map_some]

theorem image_of_not_resident {a : VirtualAddress}
    (h : m.page a.directoryIndex a.tableIndex = none) (ram : Ram) : m.image ram a = none := by
  rw [image, h, Option.map_none]

/-- What an image shows at an address depends only on the frame of its page. -/
theorem image_congr_at {ram ram' : Ram} {a : VirtualAddress}
    (hpage : (m'.page a.directoryIndex a.tableIndex).map Page.frame =
      (m.page a.directoryIndex a.tableIndex).map Page.frame)
    (hsame : ∀ pg, m.page a.directoryIndex a.tableIndex = some pg →
      ram.SameFrame ram' pg.frame) : m'.image ram' a = m.image ram a := by
  unfold image
  cases hpg : m.page a.directoryIndex a.tableIndex with
  | none =>
    rw [hpg, Option.map_none, Option.map_eq_none_iff] at hpage
    rw [hpage]
    rfl
  | some pg =>
    rw [hpg, Option.map_some] at hpage
    obtain ⟨pg', hpg', hframe⟩ := Option.map_eq_some_iff.1 hpage
    have hbyte := (hsame pg hpg).byte (Nat.le_add_right _ _)
      (Nat.add_lt_add_left a.pageOffset_lt _)
    rw [hpg', Option.map_some, Option.map_some, hframe, hbyte]

/-- An image depends on the frames of the pages only, and on where they are mapped. -/
theorem image_congr {ram ram' : Ram}
    (hpage : ∀ i j, (m'.page i j).map Page.frame = (m.page i j).map Page.frame)
    (hsame : ∀ i j pg, m.page i j = some pg → ram.SameFrame ram' pg.frame) :
    m'.image ram' = m.image ram :=
  funext fun _ => image_congr_at (hpage _ _) (hsame _ _)

/-- Without a slot, what is seen is the image before with the slot closed. -/
theorem image_setSlot_none (m : TableMap) (i : Fin directorySlots) {ram ram' : Ram}
    (hsame : ∀ i j pg, m.page i j = some pg → ram.SameFrame ram' pg.frame) :
    (m.setSlot i none).image ram' = (m.image ram).closeSlot i.val := by
  funext a
  unfold Image.closeSlot
  by_cases hat : a.directoryIndex = i
  · rw [if_pos (congrArg Fin.val hat), image_of_not_resident]
    rw [page, hat, setSlot_self, Option.bind_none]
  · have hpage := m.page_setSlot_of_ne none hat a.tableIndex
    rw [if_neg fun hval => hat (Fin.ext hval)]
    exact image_congr_at (congrArg _ hpage) (hsame _ _)

/-- Taking write permission moves no page. -/
theorem frame_page_protect (m : TableMap) (a : VirtualAddress) (i : Fin directorySlots)
    (j : Fin tableEntries) :
    ((m.protect a).page i j).map Page.frame = (m.page i j).map Page.frame := by
  unfold protect
  cases hl : m a.directoryIndex with
  | none => rfl
  | some l =>
    simp only [m.page_setPage hl]
    split
    · next hat =>
      rw [hat.1, hat.2, page_of_slot hl, Option.map_map]
      rfl
    · rfl

end TableMap

end SoftPaging
