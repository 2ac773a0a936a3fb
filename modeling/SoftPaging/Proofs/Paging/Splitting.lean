import Mathlib
import SoftPaging.Proofs.Paging.Image

/-!
# Splitting an address

An address consists of a directory slot, a table entry and an offset. The first two are read off it
by shifts and masks, or off the number of its page by division (`SplitsAlike`). The parts put
together again are the address they were read off (`addressAt_eq_ok_iff`), so an address is the same
thing as three numbers within their bounds, and the numbers of pages are ordered as the pairs of
indices are (`val_lt_val_iff`).
-/

namespace SoftPaging

/-- The address at an offset into the page at a position of the page table; halts when an index is
out of range. -/
def addressAt (slot entry offset : Nat) : Except Halt VirtualAddress := do
  let page ← Number.checkedOfIndices slot entry
  (← page.start).add offset

/-- Both ways of splitting the address answer, and they agree. -/
structure Address.SplitsAlike (a : VirtualAddress) : Prop where
  page_eq : Number.checkedOfIndices a.directoryIndex a.tableIndex = .ok a.number
  slot_eq : a.number.directoryIndex = a.directoryIndex
  entry_eq : a.number.tableIndex = a.tableIndex
  start_eq : a.number.start = .ok a.pageBase
  alignDown_eq : a.alignDown pageSize = .ok a.pageBase
  whole_eq : a.pageBase.add a.pageOffset = .ok a

/-! ## From an address to its parts -/

namespace Address

variable {realm : Realm}

/-- The page of an address starts at the base of the address. -/
theorem start_number (a : Address realm) : a.number.start = .ok a.pageBase := by
  rw [Number.start_eq_ok_iff, number_val, pageBase_val]

theorem pageBase_add_pageOffset (a : Address realm) : a.pageBase.add a.pageOffset = .ok a := by
  rw [add_eq_ok_iff, pageBase_val, pageOffset_eq, Nat.div_add_mod']

theorem directoryIndex_number (a : VirtualAddress) :
    a.number.directoryIndex = a.directoryIndex := by
  rw [Number.directoryIndex, number_val, directoryIndex_val, Nat.div_div_eq_div_mul]
  rfl

theorem tableIndex_number (a : VirtualAddress) : a.number.tableIndex = a.tableIndex := by
  rw [Number.tableIndex, number_val, tableIndex_val]

end Address

/-! ## From the parts to an address -/

namespace Number

variable {slot entry slot' entry' : Nat}

theorem checkedOfIndices_eq_ok_iff {n : PageNumber} : checkedOfIndices slot entry = .ok n ↔
    slot < directorySlots ∧ entry < tableEntries ∧ n.val = slot * tableEntries + entry := by
  obtain ⟨i⟩ := n
  unfold checkedOfIndices ofIndices
  by_cases hs : slot < directorySlots
  · by_cases he : entry < tableEntries
    · simp [hs, he, pure, Except.pure, eq_comm]
    · simp [hs, he, throw, throwThe, MonadExceptOf.throw]
  · simp [hs, throw, throwThe, MonadExceptOf.throw]

/-- The indices of a page are those it was made of. -/
theorem checkedOfIndices_indices {n : PageNumber} (h : checkedOfIndices slot entry = .ok n) :
    n.directoryIndex = slot ∧ n.tableIndex = entry := by
  obtain ⟨-, he, hval⟩ := checkedOfIndices_eq_ok_iff.1 h
  unfold directoryIndex tableIndex
  simp only [tableEntries] at *
  omega

theorem checkedOfIndices_number (a : VirtualAddress) :
    checkedOfIndices a.directoryIndex a.tableIndex = .ok a.number := by
  refine checkedOfIndices_eq_ok_iff.2 ⟨a.directoryIndex.isLt, a.tableIndex.isLt, ?_⟩
  rw [← a.directoryIndex_number, ← a.tableIndex_number]
  exact (Nat.div_add_mod' a.number.val tableEntries).symm

/-- Pages are ordered by their slots, and within a slot by their entries. -/
theorem val_lt_val_iff (n m : PageNumber) : n.val < m.val ↔
    toLex (n.directoryIndex, n.tableIndex) < toLex (m.directoryIndex, m.tableIndex) := by
  rw [Prod.Lex.toLex_lt_toLex]
  unfold directoryIndex tableIndex
  simp only [tableEntries]
  omega

end Number

theorem Address.splitsAlike (a : VirtualAddress) : a.SplitsAlike where
  page_eq := Number.checkedOfIndices_number a
  slot_eq := a.directoryIndex_number
  entry_eq := a.tableIndex_number
  start_eq := a.start_number
  alignDown_eq := a.alignDown_pageSize
  whole_eq := a.pageBase_add_pageOffset

variable {slot entry offset : Nat}

/-- Indices and an offset within their bounds make up an address. -/
theorem exists_addressAt (hs : slot < directorySlots) (he : entry < tableEntries)
    (ho : offset < pageSize) : ∃ a, addressAt slot entry offset = .ok a ∧
      a.val = (slot * tableEntries + entry) * pageSize + offset := by
  have hlt : (slot * tableEntries + entry) * pageSize + offset < addressLimit := by
    simp only [directorySlots, tableEntries, pageSize, addressLimit] at *
    omega
  have hpage : Number.checkedOfIndices slot entry = .ok (.ofIndices ⟨slot, hs⟩ ⟨entry, he⟩) :=
    Number.checkedOfIndices_eq_ok_iff.2 ⟨hs, he, rfl⟩
  refine ⟨⟨_, hlt⟩, ?_, rfl⟩
  refine bind_eq_ok_iff.2 ⟨_, hpage, bind_eq_ok_iff.2 ⟨_, start_ofIndices _ _, ?_⟩⟩
  exact Address.add_eq_ok_iff.2 rfl

/-- The parts of an address put together are that address, and no other parts are. -/
theorem addressAt_eq_ok_iff (ho : offset < pageSize) {a : VirtualAddress} :
    addressAt slot entry offset = .ok a ↔
      a.directoryIndex.val = slot ∧ a.tableIndex.val = entry ∧ a.pageOffset = offset := by
  constructor
  · intro h
    obtain ⟨n, hn, -⟩ := bind_eq_ok_iff.1 h
    obtain ⟨hs, he, -⟩ := Number.checkedOfIndices_eq_ok_iff.1 hn
    obtain ⟨b, hb, hval⟩ := exists_addressAt hs he ho
    obtain rfl : b = a := Except.ok.inj (hb.symm.trans h)
    rw [Address.directoryIndex_val, Address.tableIndex_val, Address.pageOffset_eq, hval]
    simp only [tableEntries, pageSize] at *
    omega
  · rintro ⟨rfl, rfl, rfl⟩
    refine bind_eq_ok_iff.2 ⟨_, Number.checkedOfIndices_number a, bind_eq_ok_iff.2 ?_⟩
    exact ⟨_, a.start_number, a.pageBase_add_pageOffset⟩

/-- The two ways of splitting an address agree and lose nothing: indices and an offset within their
bounds make up an address that splits into them, different ones make up different addresses, and the
numbers of pages are ordered as their pairs of indices are. -/
theorem splitting_lossless :
    (∀ a : VirtualAddress, a.SplitsAlike) ∧
    (∀ slot entry offset, slot < directorySlots → entry < tableEntries → offset < pageSize →
      ∃ a, addressAt slot entry offset = .ok a ∧
        a.directoryIndex.val = slot ∧ a.tableIndex.val = entry ∧ a.pageOffset = offset) ∧
    (∀ slot entry offset slot' entry' offset' a, offset < pageSize → offset' < pageSize →
      addressAt slot entry offset = .ok a → addressAt slot' entry' offset' = .ok a →
        (slot, entry, offset) = (slot', entry', offset')) ∧
    ∀ slot entry slot' entry' n n', Number.checkedOfIndices slot entry = .ok n →
      Number.checkedOfIndices slot' entry' = .ok n' →
        (n.val < n'.val ↔ toLex (slot, entry) < toLex (slot', entry')) := by
  refine ⟨Address.splitsAlike, fun slot entry offset hs he ho => ?_,
    fun slot entry offset slot' entry' offset' a ho ho' h h' => ?_,
    fun slot entry slot' entry' n n' hn hn' => ?_⟩
  · obtain ⟨a, ha, -⟩ := exists_addressAt hs he ho
    exact ⟨a, ha, (addressAt_eq_ok_iff ho).1 ha⟩
  · obtain ⟨hslot, hentry, hoffset⟩ := (addressAt_eq_ok_iff ho).1 h
    obtain ⟨hslot', hentry', hoffset'⟩ := (addressAt_eq_ok_iff ho').1 h'
    rw [← hslot, ← hentry, ← hoffset, ← hslot', ← hentry', ← hoffset']
  · obtain ⟨hslot, hentry⟩ := Number.checkedOfIndices_indices hn
    obtain ⟨hslot', hentry'⟩ := Number.checkedOfIndices_indices hn'
    rw [n.val_lt_val_iff n', hslot, hentry, hslot', hentry']

/-- The last byte of slot 1 and the first of slot 2, whose pages follow each other. -/
theorem splitting_at_slot_boundary :
    (∃ a, addressAt 1 1023 4095 = .ok a ∧
      a.directoryIndex.val = 1 ∧ a.tableIndex.val = 1023 ∧ a.pageOffset = 4095) ∧
    addressAt 2 0 0 = .ok ⟨8388608, by decide⟩ ∧
    (∀ slot entry offset, offset < pageSize →
      addressAt slot entry offset = .ok ⟨8388608, by decide⟩ → (slot, entry, offset) = (2, 0, 0)) ∧
    Number.checkedOfIndices 1 1023 = .ok ⟨2047⟩ ∧ Number.checkedOfIndices 2 0 = .ok ⟨2048⟩ ∧
    ((2047 : Nat) < 2048 ↔ toLex (1, 1023) < toLex (2, 0)) := by
  obtain ⟨-, hmakes, hdiffer, hordered⟩ := splitting_lossless
  have hfirst : addressAt 2 0 0 = .ok ⟨8388608, by decide⟩ :=
    (addressAt_eq_ok_iff (by decide)).2 ⟨rfl, rfl, rfl⟩
  exact ⟨hmakes 1 1023 4095 (by decide) (by decide) (by decide), hfirst,
    fun slot entry offset ho h => hdiffer slot entry offset 2 0 0 _ ho (by decide) h hfirst,
    rfl, rfl, hordered 1 1023 2 0 ⟨2047⟩ ⟨2048⟩ rfl rfl⟩

end SoftPaging
