import SoftPaging.Address.Basic

/-!
# Frame and page numbers

Memory is dealt with in units of `pageSize` bytes. A frame number counts such units of RAM, a page
number such units of a program's address range; the two share their arithmetic as the two kinds of
address do.

A page number splits into the two indices of a page table: its quotient by the number of table
entries is the directory slot, its remainder the entry.
-/

namespace SoftPaging

/-- The number of a unit of `pageSize` bytes. -/
structure Number (realm : Realm) where
  val : Nat
deriving DecidableEq, Repr

abbrev FrameNumber := Number .physical

abbrev PageNumber := Number .virtual

/-- The number of the frame or page that contains an address. -/
def Address.number {realm : Realm} (a : Address realm) : Number realm :=
  ⟨a.val >>> pageShift⟩

namespace Number

variable {realm : Realm}

/-- The first address of the unit; halts when it does not fit in 32 bits. -/
def start (n : Number realm) : Except Halt (Address realm) := do
  Address.ofNat (← checkedMul n.val pageSize)

/-- The number `k` further up; halts when it leaves the word. -/
def add (n : Number realm) (k : Nat) : Except Halt (Number realm) := do
  return ⟨← checkedAdd n.val k⟩

/-- The number `k` further down; halts when that lies below zero. -/
def sub (n : Number realm) (k : Nat) : Except Halt (Number realm) := do
  return ⟨← checkedSub n.val k⟩

/-- How far `m` lies above `n`; halts when it lies below. -/
def distance (m n : Number realm) : Except Halt Nat :=
  checkedSub m.val n.val

/-- The numbers from `first` up to, but not including, `past`. -/
def upTo (first past : Number realm) : List (Number realm) :=
  (List.range' first.val (past.val - first.val)).map Number.mk

/-- The first `limit` numbers of `first.upTo past`, without building the rest. -/
def firstUpTo (first past : Number realm) (limit : Nat) : List (Number realm) :=
  (List.range' first.val (min limit (past.val - first.val))).map Number.mk

/-- A unit starts at its number times its size, wherever that is an address. -/
theorem start_eq_ok_iff {n : Number realm} {a : Address realm} :
    n.start = .ok a ↔ n.val * pageSize = a.val := by
  unfold start
  simp only [bind_eq_ok_iff, checkedMul_eq_ok_iff, Address.ofNat_eq_ok_iff]
  constructor
  · rintro ⟨_, ⟨rfl, -⟩, hval⟩
    exact hval
  · intro hval
    exact ⟨_, ⟨rfl, hval ▸ Nat.lt_trans a.val_lt (by decide)⟩, hval⟩

theorem firstUpTo_eq_take (first past : Number realm) (limit : Nat) :
    first.firstUpTo past limit = (first.upTo past).take limit := by
  unfold firstUpTo upTo
  rw [← List.map_take]
  congr 1
  apply List.ext_getElem <;> simp

/-- The number as consoles show it. -/
def text (n : Number realm) : String :=
  hex n.val

end Number

/-- The word that names a realm in the detailed text of its numbers. -/
def Realm.numberName : Realm → String
  | .physical => "FrameNumber"
  | .virtual => "PageNumber"

/-- The detailed text of a number, `FrameNumber(0x2a)`. -/
def Number.detail {realm : Realm} (n : Number realm) : String :=
  s!"{realm.numberName}({hex n.val})"

/-! ## Frames -/

/-- How many frames hold `bytes` bytes. -/
def framesFor (bytes : Nat) : Nat :=
  (bytes + (pageSize - 1)) / pageSize

/-! ## Pages and table positions -/

namespace Number

/-- The page at a position of the page table. -/
def ofIndices (slot : Fin directorySlots) (entry : Fin tableEntries) : PageNumber :=
  ⟨slot.val * tableEntries + entry.val⟩

/-- The page at the position given by two numbers; halts when either is out of range. -/
def checkedOfIndices (slot entry : Nat) : Except Halt PageNumber := do
  if hs : slot < directorySlots then
    if he : entry < tableEntries then
      return ofIndices ⟨slot, hs⟩ ⟨entry, he⟩
    else throw .tableIndexRange
  else throw .directoryIndexRange

/-- The directory slot of a page. -/
def directoryIndex (n : PageNumber) : Nat :=
  n.val / tableEntries

/-- The table entry of a page. -/
def tableIndex (n : PageNumber) : Nat :=
  n.val % tableEntries

end Number

/-- The first address of the page at a position of the page table. It fits in 32 bits because the
two tables together cover exactly the machine's address range. -/
def pageAt (slot : Fin directorySlots) (entry : Fin tableEntries) : VirtualAddress :=
  ⟨(Number.ofIndices slot entry).val * pageSize, by
    have := slot.isLt
    have := entry.isLt
    simp only [Number.ofIndices, addressLimit, pageSize, tableEntries, directorySlots] at *
    omega⟩

/-- The page at a position of the page table starts where its number says. -/
theorem start_ofIndices (slot : Fin directorySlots) (entry : Fin tableEntries) :
    (Number.ofIndices slot entry).start = .ok (pageAt slot entry) :=
  Number.start_eq_ok_iff.2 rfl

end SoftPaging
