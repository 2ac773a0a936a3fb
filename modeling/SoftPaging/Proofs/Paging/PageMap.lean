import Mathlib
import SoftPaging.Proofs.Paging.Image
import SoftPaging.Proofs.Paging.Counting
import SoftPaging.Proofs.Paging.Release

/-!
# Page tables as finite maps

A `PageMap` is what a page table is to those who use it: a set of slots, and a finite map from the
positions in those slots to pages. It says nothing of where the second-level tables lie.

`PageTable.Represents t p k M` says that the page table `t` is the map `M`, by everything that can be
read of it: the words in RAM, the lookups by index and by address, the list of mappings, and the two
counts. They compute their places in different ways, from the bits of an address, from indices that
are given, or by going through both levels, and they all agree because they agree with the same map.
Every table that is held represents a map (`Held.represents`), and only one (`Represents.unique`).
-/

namespace SoftPaging

/-! ## Maps -/

/-- A set of slots, and for the positions in those slots the pages that are mapped there. -/
@[ext] structure PageMap where
  slots : Finset (Fin directorySlots)
  page : Fin directorySlots → Fin tableEntries → Option Page
  slot_mem : ∀ i j, (page i j).isSome = true → i ∈ slots

namespace PageMap

variable {M : PageMap} {i : Fin directorySlots} {j : Fin tableEntries} {pg : Page}

theorem page_eq_none (h : i ∉ M.slots) (j : Fin tableEntries) : M.page i j = none := by
  rw [← Option.isNone_iff_eq_none, ← Option.not_isSome]
  exact Bool.eq_false_iff.2 (mt (M.slot_mem i j) h) ▸ rfl

/-- No slots, and no pages. -/
def empty : PageMap := ⟨∅, fun _ _ => none, fun _ _ h => by cases h⟩

/-- The map with one more slot. -/
def openSlot (M : PageMap) (i : Fin directorySlots) : PageMap where
  slots := insert i M.slots
  page := M.page
  slot_mem i' j h := Finset.mem_insert_of_mem (M.slot_mem i' j h)

/-- The map without a slot and its pages. -/
def closeSlot (M : PageMap) (i : Fin directorySlots) : PageMap where
  slots := M.slots.erase i
  page i' j := if i' = i then none else M.page i' j
  slot_mem i' j h := by
    by_cases hi : i' = i
    · rw [if_pos hi] at h
      cases h
    · rw [if_neg hi] at h
      exact Finset.mem_erase.2 ⟨hi, M.slot_mem i' j h⟩

/-- The map with a page at a position. -/
def insert (M : PageMap) (i : Fin directorySlots) (j : Fin tableEntries) (pg : Page) : PageMap where
  slots := Insert.insert i M.slots
  page i' j' := if i' = i ∧ j' = j then some pg else M.page i' j'
  slot_mem i' j' h := by
    by_cases hat : i' = i ∧ j' = j
    · exact hat.1 ▸ Finset.mem_insert_self _ _
    · rw [if_neg hat] at h
      exact Finset.mem_insert_of_mem (M.slot_mem i' j' h)

/-- The map without write permission for the page at an address. -/
def protect (M : PageMap) (a : VirtualAddress) : PageMap where
  slots := M.slots
  page i j := if a.directoryIndex = i ∧ a.tableIndex = j then (M.page i j).map Page.readOnly
    else M.page i j
  slot_mem i j h := by
    refine M.slot_mem i j ?_
    by_cases hat : a.directoryIndex = i ∧ a.tableIndex = j
    · rwa [if_pos hat, Option.isSome_map] at h
    · rwa [if_neg hat] at h

/-- The page that covers an address. -/
def lookup (M : PageMap) (a : VirtualAddress) : Option Page :=
  M.page a.directoryIndex a.tableIndex

/-- The positions that have a page. -/
def keys (M : PageMap) : Finset (Fin directorySlots × Fin tableEntries) :=
  Finset.univ.filter fun x => (M.page x.1 x.2).isSome = true

/-- The word of a page: the address of its frame, a bit for valid, and one for write permission. -/
def wordOf (pg : Page) : UInt32 :=
  (frameAt pg.frame).toWord ||| 0x200 ||| if pg.writable = true then 0x400 else 0

/-- The word of a position, which is zero where there is no page. -/
def word (M : PageMap) (i : Fin directorySlots) (j : Fin tableEntries) : UInt32 :=
  ((M.page i j).map wordOf).getD 0

theorem keys_empty : empty.keys = ∅ := Finset.filter_false_of_mem fun _ _ h => by cases h

theorem card_keys (M : PageMap) : M.keys.card = ∑ i, occupied (M.page i) := by
  unfold keys occupied
  rw [Finset.card_filter, Fintype.sum_prod_type]

theorem wordOf_eq (h : pg.frame < 1048576) : wordOf pg = pg.entry.bits := by
  have hflags : (PageFlags.mapped pg.writable).bits =
      0x200 ||| if pg.writable = true then 0x400 else 0 := by
    cases pg.writable <;> decide
  unfold wordOf Page.entry
  rw [toWord_and_frameMask (isPageAligned_frameAt h), hflags, UInt32.or_assoc]

/-- The word of a position is that of the entry of its page. -/
theorem word_eq (h : ∀ pg, M.page i j = some pg → pg.frame < 1048576) :
    M.word i j = (entryOf (M.page i j)).bits := by
  unfold word
  cases hpg : M.page i j with
  | none => rfl
  | some pg => exact wordOf_eq (h pg hpg)

/-- The page can be read off its word. -/
theorem page_eq_of_word {N : PageMap} (hM : ∀ pg, M.page i j = some pg → pg.frame < 1048576)
    (hN : ∀ pg, N.page i j = some pg → pg.frame < 1048576) (h : M.word i j = N.word i j) :
    M.page i j = N.page i j := by
  rw [word_eq hM, word_eq hN] at h
  have hentry : entryOf (M.page i j) = entryOf (N.page i j) := congrArg PageEntry.mk h
  rw [← page?_entryOf hM, hentry, page?_entryOf hN]

end PageMap

namespace TableMap

variable {m : TableMap} {i : Fin directorySlots} {l : Leaf}

/-- The map without the places of its second-level tables. -/
def pageMap (m : TableMap) : PageMap where
  slots := Finset.univ.filter fun i => (m i).isSome = true
  page := m.page
  slot_mem i j h := by
    obtain ⟨pg, hpg⟩ := Option.isSome_iff_exists.1 h
    obtain ⟨l, hl, -⟩ := page_eq_some.1 hpg
    rw [Finset.mem_filter, hl]
    exact ⟨Finset.mem_univ i, rfl⟩

theorem mem_slots : i ∈ m.pageMap.slots ↔ (m i).isSome = true := by
  rw [pageMap, Finset.mem_filter, and_iff_right (Finset.mem_univ i)]

theorem mem_slots_of_open (hl : m i = some l) : i ∈ m.pageMap.slots := by
  rw [mem_slots, hl, Option.isSome_some]

theorem not_mem_slots : i ∉ m.pageMap.slots ↔ m i = none := by
  rw [mem_slots, Option.not_isSome_iff_eq_none]

theorem exists_of_mem_slots (h : i ∈ m.pageMap.slots) : ∃ l, m i = some l :=
  Option.isSome_iff_exists.1 (mem_slots.1 h)

@[simp] theorem page_pageMap (m : TableMap) : m.pageMap.page = m.page := rfl

theorem mem_keys {j : Fin tableEntries} :
    (i, j) ∈ m.pageMap.keys ↔ (m.page i j).isSome = true := by
  rw [PageMap.keys, Finset.mem_filter, page_pageMap, and_iff_right (Finset.mem_univ (i, j))]

@[simp] theorem pageMap_vacant : vacant.pageMap = .empty := by
  refine PageMap.ext (Finset.filter_eq_empty_iff.2 fun i _ => ?_) rfl
  exact Bool.false_ne_true

theorem slots_setSlot_some (m : TableMap) (i : Fin directorySlots) (l : Leaf) :
    (m.setSlot i (some l)).pageMap.slots = insert i m.pageMap.slots := by
  ext i'
  rw [Finset.mem_insert, mem_slots, mem_slots]
  by_cases hi : i' = i
  · rw [hi, setSlot_self, Option.isSome_some]
    exact iff_of_true rfl (.inl rfl)
  · rw [setSlot_of_ne _ _ hi, or_iff_right hi]

/-- A second-level table that maps nothing adds its slot. -/
theorem pageMap_setSlot_vacant (h : m i = none) (f : Nat) :
    (m.setSlot i (some (.vacant f))).pageMap = m.pageMap.openSlot i :=
  PageMap.ext (m.slots_setSlot_some i _)
    (funext fun i' => funext fun j => m.page_setSlot_vacant h f i' j)

/-- A page of a second-level table is a page of the map. -/
theorem pageMap_setPage (hl : m i = some l) (j : Fin tableEntries) (pg : Page) :
    (m.setSlot i (some (l.setPage j (some pg)))).pageMap = m.pageMap.insert i j pg :=
  PageMap.ext (m.slots_setSlot_some i _)
    (funext fun i' => funext fun j' => m.page_setPage hl j (some pg) i' j')

/-- A second-level table takes its slot and its pages along. -/
theorem pageMap_setSlot_none (m : TableMap) (i : Fin directorySlots) :
    (m.setSlot i none).pageMap = m.pageMap.closeSlot i := by
  refine PageMap.ext ?_ (funext fun i' => funext fun j => ?_)
  · ext i'
    show i' ∈ _ ↔ i' ∈ m.pageMap.slots.erase i
    rw [Finset.mem_erase, mem_slots, mem_slots]
    by_cases hi : i' = i
    · rw [hi, setSlot_self]
      exact iff_of_false Bool.false_ne_true fun h => h.1 rfl
    · rw [setSlot_of_ne _ _ hi, and_iff_right hi]
  · show (m.setSlot i none).page i' j = if i' = i then none else m.page i' j
    by_cases hi : i' = i
    · rw [if_pos hi, hi, page_of_closed (setSlot_self ..)]
    · rw [if_neg hi, m.page_setSlot_of_ne none hi]

theorem pageMap_protect (m : TableMap) (a : VirtualAddress) :
    (m.protect a).pageMap = m.pageMap.protect a := by
  refine PageMap.ext ?_ (funext fun i => funext fun j => m.page_protect a i j)
  show (m.protect a).pageMap.slots = m.pageMap.slots
  unfold protect
  cases hl : m a.directoryIndex with
  | none => rfl
  | some l =>
    show (m.setSlot _ _).pageMap.slots = _
    rw [slots_setSlot_some, Finset.insert_eq_of_mem (mem_slots_of_open hl)]

/-- As many slots as there are second-level tables. -/
theorem card_slots (m : TableMap) : m.pageMap.slots.card = m.tableCount := by
  unfold pageMap tableCount occupied
  rw [Finset.card_filter]

theorem card_keys_pageMap (m : TableMap) : m.pageMap.keys.card = m.pageCount :=
  m.pageMap.card_keys

end TableMap

namespace PageTable

/-! ## What a page table shows of a map -/

/-- The page table is the map, by all that can be read of it. -/
structure Represents (t : PageTable) (p : FramePool) (k : Kernel) (M : PageMap) : Prop where
  /-- The frame of each page starts on a page boundary, in the frames that the pool hands out. -/
  frame_mem : ∀ i j pg, M.page i j = some pg → (frameAt pg.frame).isPageAligned = true ∧
    (frameAt pg.frame).val = pg.frame * pageSize ∧ p.reserved ≤ pg.frame ∧ pg.frame < p.total
  slot_word : ∀ i, k.ram.word (t.slotAddress i) = 0 ↔ i ∉ M.slots
  entry_word : ∀ i leaf, t.slotIn k.ram i = some leaf →
    ∀ j, k.ram.word (leaf.entryAddress j) = M.word i j
  isOpen : ∀ i : Fin directorySlots, (t.isOpen i.val).run k = .done (decide (i ∈ M.slots)) k
  entry : ∀ a, (t.entry a).run k = .done ⟨((M.lookup a).map PageMap.wordOf).getD 0⟩ k
  translate : ∀ a, ∃ pa?, (t.translate a).run k = .done pa? k ∧
    pa?.map Address.val = (M.lookup a).map fun pg => pg.frame * pageSize + a.pageOffset
  /-- Every page stands in the list once, behind all those with lower addresses. -/
  mappings : ∃ xs, t.mappings.run k = .done xs k ∧ xs.Pairwise (fun x y => x.1.val < y.1.val) ∧
    ∀ x, x ∈ xs ↔ ∃ i j pg, M.page i j = some pg ∧ x = (pageAt i j, ⟨PageMap.wordOf pg⟩)
  residentPages : t.residentPages.run k = .done M.keys.card k
  openSlots : t.openSlots.run k = .done M.slots.card k

variable {t : PageTable} {k : Kernel} {p : FramePool} {m : TableMap} {rest : List Block}
  {i : Fin directorySlots} {j : Fin tableEntries} {pg : Page}

/-! ## Going through both levels -/

theorem val_pageAt (i : Fin directorySlots) (j : Fin tableEntries) :
    (pageAt i j).val = (i.val * 1024 + j.val) * 4096 := rfl

/-- The entries that are valid are those at the keys. -/
theorem Shows.isValid_iff {ram : Ram} (h : t.Shows ram m) {a : VirtualAddress} :
    (t.entryIn ram a).isValid = true ↔ (a.directoryIndex, a.tableIndex) ∈ m.pageMap.keys := by
  rw [h.entryIn_eq, isValid_entryOf, TableMap.mem_keys]

/-- The slots that are open are those of the map. -/
theorem Shows.isSome_slotIn_iff {ram : Ram} (h : t.Shows ram m) :
    (t.slotIn ram i).isSome = true ↔ i ∈ m.pageMap.slots := by
  rw [h.slotIn_eq, Option.isSome_map, TableMap.mem_slots]

theorem Shows.mem_mappingsIn {ram : Ram} (h : t.Shows ram m) {x : VirtualAddress × PageEntry} :
    x ∈ t.mappingsIn ram ↔ ∃ i j pg, m.page i j = some pg ∧ x = (pageAt i j, pg.entry) := by
  rw [h.mappingsIn_eq]
  simp only [List.mem_flatMap, List.mem_finRange, true_and, List.mem_filterMap,
    Option.map_eq_some_iff]
  exact exists_congr fun i => exists_congr fun j => exists_congr fun pg =>
    and_congr_right fun _ => eq_comm

/-- The list of mappings goes through the slots in order, and through each second-level table in
order, which is the order of the addresses. -/
theorem Shows.pairwise_mappingsIn {ram : Ram} (h : t.Shows ram m) :
    (t.mappingsIn ram).Pairwise fun x y => x.1.val < y.1.val := by
  rw [h.mappingsIn_eq, List.pairwise_flatMap]
  constructor
  · intro i _
    rw [List.pairwise_filterMap]
    refine (List.pairwise_lt_finRange tableEntries).imp fun {j j'} hlt x hx y hy => ?_
    obtain ⟨pg, -, rfl⟩ := Option.map_eq_some_iff.1 hx
    obtain ⟨pg', -, rfl⟩ := Option.map_eq_some_iff.1 hy
    have hval : j.val < j'.val := hlt
    rw [val_pageAt, val_pageAt]
    omega
  · refine (List.pairwise_lt_finRange directorySlots).imp fun {i i'} hlt x hx y hy => ?_
    obtain ⟨j, -, hj⟩ := List.mem_filterMap.1 hx
    obtain ⟨j', -, hj'⟩ := List.mem_filterMap.1 hy
    obtain ⟨pg, -, rfl⟩ := Option.map_eq_some_iff.1 hj
    obtain ⟨pg', -, rfl⟩ := Option.map_eq_some_iff.1 hj'
    have hval : i.val < i'.val := hlt
    have hlow := j.isLt
    rw [val_pageAt, val_pageAt]
    simp only [tableEntries] at hlow
    omega

/-! ## Tables that are held -/

namespace Held

theorem page_lt (h : t.Held k p m rest) (hpg : m.page i j = some pg) : pg.frame < 1048576 :=
  h.holds.frame_lt (h.page_mem hpg)

theorem word_eq (h : t.Held k p m rest) (i : Fin directorySlots) (j : Fin tableEntries) :
    m.pageMap.word i j = (entryOf (m.page i j)).bits :=
  PageMap.word_eq fun _ hpg => h.page_lt hpg

theorem run_translate_lookup (h : t.Held k p m rest) (a : VirtualAddress) :
    ∃ pa?, (t.translate a).run k = .done pa? k ∧ pa?.map Address.val =
      (m.pageMap.lookup a).map fun pg => pg.frame * pageSize + a.pageOffset := by
  refine ⟨_, h.run_translate a, ?_⟩
  show _ = (m.page a.directoryIndex a.tableIndex).map _
  cases hpg : m.page a.directoryIndex a.tableIndex with
  | none => rfl
  | some pg =>
    obtain ⟨pa, htranslate, hval⟩ := pg.translate_entry (h.page_lt hpg) a
    rw [entryOf_some, htranslate, Option.map_some, Option.map_some, hval]

/-- A page table that is held represents the map that it shows. -/
theorem represents (h : t.Held k p m rest) : t.Represents p k m.pageMap where
  frame_mem i j pg hpg := by
    have hbounds := h.holds.frame_bounds (h.page_mem hpg)
    have hlt := h.page_lt hpg
    exact ⟨isPageAligned_frameAt hlt, val_frameAt hlt, hbounds.1, hbounds.2⟩
  slot_word i := by
    have hslot := h.shows.slotIn_eq i
    rw [TableMap.not_mem_slots, ← Option.map_eq_none_iff (f := Leaf.table), ← hslot]
    unfold slotIn
    by_cases hword : k.ram.word (t.slotAddress i) = 0
    · simp [hword]
    · simp [hword]
  entry_word i leaf hleaf j := by
    rw [h.shows.slotIn_eq i] at hleaf
    obtain ⟨l, hl, rfl⟩ := Option.map_eq_some_iff.1 hleaf
    rw [h.word_eq i j, TableMap.page_of_slot hl]
    exact congrArg PageEntry.bits ((h.shows.leaf_shows i l hl).entryIn_eq j)
  isOpen i := by
    have hopen : (m i).isSome = decide (i ∈ m.pageMap.slots) := by
      rw [Bool.eq_iff_iff, decide_eq_true_iff, TableMap.mem_slots]
    rw [h.run_isOpen i, hopen]
  entry a := by
    rw [h.run_entry_address a]
    exact congrArg (Outcome.done · k) (congrArg PageEntry.mk (h.word_eq _ _).symm)
  translate a := h.run_translate_lookup a
  mappings := by
    refine ⟨_, h.run_mappings, h.shows.pairwise_mappingsIn, fun x => ?_⟩
    rw [h.shows.mem_mappingsIn]
    refine exists_congr fun i => exists_congr fun j => exists_congr fun pg =>
      and_congr_right fun hpg => ?_
    rw [PageMap.wordOf_eq (h.page_lt hpg)]
  residentPages := by rw [h.run_residentPages, h.shows.length_mappingsIn, m.card_keys_pageMap]
  openSlots := by rw [h.run_openSlots, h.shows.length_leavesIn, m.card_slots]

end Held

/-- A page table is one map only. -/
theorem Represents.unique {M N : PageMap} (hM : t.Represents p k M) (hN : t.Represents p k N)
    (hp : p.Sound) : M = N := by
  have hframe {M : PageMap} (h : t.Represents p k M) (i : Fin directorySlots)
      (j : Fin tableEntries) (pg : Page) (hpg : M.page i j = some pg) : pg.frame < 1048576 :=
    hp.frame_lt (h.frame_mem i j pg hpg).2.2.2
  refine PageMap.ext (Finset.ext fun i => ?_) (funext fun i => funext fun j => ?_)
  · rw [← not_iff_not, ← hM.slot_word i, hN.slot_word i]
  · refine PageMap.page_eq_of_word (hframe hM i j) (hframe hN i j) ?_
    have hentry := (hM.entry (pageAt i j)).symm.trans (hN.entry (pageAt i j))
    unfold PageMap.lookup at hentry
    rw [Address.directoryIndex_pageAt, Address.tableIndex_pageAt] at hentry
    exact congrArg PageEntry.bits (Outcome.done.inj hentry).1

end PageTable

end SoftPaging
