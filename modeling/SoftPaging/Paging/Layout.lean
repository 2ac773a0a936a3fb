import SoftPaging.Address.Number
import SoftPaging.Paging.Entry
import SoftPaging.Ram.Word

/-!
# Page tables in RAM

A page table is a directory of 1024 slots in a frame. A slot is empty or holds a second-level table,
a frame of 1024 entries. A slot lies in RAM as the word of the table's frame, with zero for none,
and an entry as its own word. The top ten bits of a virtual address select the slot, and the next
ten bits the entry.

The tables lie in RAM and nowhere else. What is there is read through `EntryTable.entryIn` and
`PageTable.slotIn`, and `PageTable.mappingsIn` lists the pages that a table maps. The lemmas at the
end say what these views show after a slot or an entry was changed.
-/

namespace SoftPaging

/-- A second-level table, by its frame. -/
structure EntryTable where
  frame : PhysicalAddress
deriving DecidableEq, Repr

/-- A page table, by the frame of its directory. -/
structure PageTable where
  directory : PhysicalAddress
deriving DecidableEq, Repr

/-! ## Second-level tables -/

namespace EntryTable

/-- Where an entry lies. -/
def entryAddress (t : EntryTable) (i : Fin tableEntries) : Nat :=
  t.frame.val + 4 * i.val

/-- An entry of a second-level table. -/
def entryIn (t : EntryTable) (ram : Ram) (i : Fin tableEntries) : PageEntry :=
  ⟨ram.word (t.entryAddress i)⟩

/-- RAM with an entry of a second-level table changed. -/
def setEntryIn (t : EntryTable) (ram : Ram) (i : Fin tableEntries) (e : PageEntry) : Ram :=
  ram.storeWord (t.entryAddress i) e.bits

/-- The entries of a second-level table that hold a translation, with their indices. -/
def validIn (t : EntryTable) (ram : Ram) : List (Fin tableEntries × PageEntry) :=
  (List.finRange tableEntries).filterMap fun i =>
    let e := t.entryIn ram i
    if e.isValid then some (i, e) else none

end EntryTable

/-! ## Directories -/

namespace PageTable

/-- Where a slot lies. -/
def slotAddress (t : PageTable) (i : Fin directorySlots) : Nat :=
  t.directory.val + 4 * i.val

/-- The second-level table in a slot. -/
def slotIn (t : PageTable) (ram : Ram) (i : Fin directorySlots) : Option EntryTable :=
  let w := ram.word (t.slotAddress i)
  if w = 0 then none else some ⟨.ofWord w⟩

/-- The word that stands for the contents of a slot. -/
def slotWord : Option EntryTable → UInt32
  | some leaf => leaf.frame.toWord
  | none => 0

/-- RAM with a slot changed. -/
def setSlotIn (t : PageTable) (ram : Ram) (i : Fin directorySlots) (leaf? : Option EntryTable) :
    Ram :=
  ram.storeWord (t.slotAddress i) (slotWord leaf?)

/-- The second-level tables of a page table, with their slots. -/
def leavesIn (t : PageTable) (ram : Ram) : List (Fin directorySlots × EntryTable) :=
  (List.finRange directorySlots).filterMap fun i => (t.slotIn ram i).map (i, ·)

/-- The pages that a page table maps, each with its entry, lowest first. -/
def mappingsIn (t : PageTable) (ram : Ram) : List (VirtualAddress × PageEntry) :=
  (t.leavesIn ram).flatMap fun (slot, leaf) =>
    (leaf.validIn ram).map fun (i, e) => (pageAt slot i, e)

/-- The entry that covers an address, the empty one if there is no second-level table for it. -/
def entryIn (t : PageTable) (ram : Ram) (a : VirtualAddress) : PageEntry :=
  match t.slotIn ram a.directoryIndex with
  | some leaf => leaf.entryIn ram a.tableIndex
  | none => .empty

end PageTable

/-! ## After a change -/

namespace EntryTable

variable {t : EntryTable} {ram : Ram} {i : Fin tableEntries}

theorem entryIn_setEntryIn_self (e : PageEntry) (h : t.frame.val + pageSize ≤ ram.size) :
    t.entryIn (t.setEntryIn ram i e) i = e := by
  have hi : t.entryAddress i + 4 ≤ ram.size := by
    have := i.isLt
    simp only [entryAddress, tableEntries, pageSize] at *
    omega
  rw [entryIn, setEntryIn, Ram.word_storeWord_self _ _ hi]

theorem entryIn_setEntryIn_of_ne {j : Fin tableEntries} (e : PageEntry) (h : i ≠ j) :
    t.entryIn (t.setEntryIn ram i e) j = t.entryIn ram j := by
  have hij : i.val ≠ j.val := fun heq => h (Fin.ext heq)
  rw [entryIn, setEntryIn, Ram.word_storeWord_of_disjoint _ _ (by simp only [entryAddress]; omega),
    entryIn]

/-- An entry depends on no more than the bytes of its table's frame. -/
theorem entryIn_congr {s : Ram}
    (h : ∀ j, t.frame.val ≤ j → j < t.frame.val + pageSize → ram.byte j = s.byte j) :
    t.entryIn ram i = t.entryIn s i := by
  have hi := i.isLt
  simp only [tableEntries, pageSize] at hi h
  rw [entryIn, entryIn]
  congr 1
  exact Ram.word_congr fun j hl hu => h j (by simp only [entryAddress] at hl; omega)
    (by simp only [entryAddress] at hu; omega)

end EntryTable

namespace PageTable

variable {t : PageTable} {ram : Ram} {i : Fin directorySlots}

theorem slotIn_setSlotIn_none (h : t.directory.val + pageSize ≤ ram.size) :
    t.slotIn (t.setSlotIn ram i none) i = none := by
  have hi : t.slotAddress i + 4 ≤ ram.size := by
    have := i.isLt
    simp only [slotAddress, directorySlots, pageSize] at *
    omega
  simp only [slotIn, setSlotIn, Ram.word_storeWord_self _ _ hi, slotWord, if_true]

theorem slotIn_setSlotIn_some {leaf : EntryTable} (h : t.directory.val + pageSize ≤ ram.size)
    (hleaf : leaf.frame.val ≠ 0) :
    t.slotIn (t.setSlotIn ram i (some leaf)) i = some leaf := by
  have hi : t.slotAddress i + 4 ≤ ram.size := by
    have := i.isLt
    simp only [slotAddress, directorySlots, pageSize] at *
    omega
  have hword : leaf.frame.toWord ≠ 0 := fun hzero => hleaf (Address.toWord_eq_zero.1 hzero)
  simp only [slotIn, setSlotIn, Ram.word_storeWord_self _ _ hi, slotWord, if_neg hword,
    Address.ofWord_toWord]

theorem slotIn_setSlotIn_of_ne {j : Fin directorySlots} (leaf? : Option EntryTable) (h : i ≠ j) :
    t.slotIn (t.setSlotIn ram i leaf?) j = t.slotIn ram j := by
  have hij : i.val ≠ j.val := fun heq => h (Fin.ext heq)
  rw [slotIn, setSlotIn, Ram.word_storeWord_of_disjoint _ _ (by simp only [slotAddress]; omega),
    slotIn]

/-- A slot depends on no more than the bytes of the directory's frame. -/
theorem slotIn_congr {s : Ram}
    (h : ∀ j, t.directory.val ≤ j → j < t.directory.val + pageSize → ram.byte j = s.byte j) :
    t.slotIn ram i = t.slotIn s i := by
  have hi := i.isLt
  simp only [directorySlots, pageSize] at hi h
  have hword : ram.word (t.slotAddress i) = s.word (t.slotAddress i) :=
    Ram.word_congr fun j hl hu => h j (by simp only [slotAddress] at hl; omega)
      (by simp only [slotAddress] at hu; omega)
  rw [slotIn, slotIn, hword]

end PageTable

end SoftPaging
