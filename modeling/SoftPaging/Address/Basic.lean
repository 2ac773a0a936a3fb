import SoftPaging.Word.Checked
import SoftPaging.Word.Hex
import SoftPaging.Word.Rounding

/-!
# Machine addresses

A machine address is a 32-bit number in one of two realms. Physical addresses index RAM from zero
and are never dereferenced as such; virtual addresses are what programs use, and are translated
page by page.

The realm is a parameter of the type, so the arithmetic is written once and the two kinds of
address still cannot be mixed. The bound is a field of the type: an address that exists fits in 32
bits, and the functions that make one either refuse a wider number (`ofNat?`) or halt (`ofNat`).
-/

namespace SoftPaging

/-- The two kinds of address. -/
inductive Realm where
  /-- Positions in RAM. -/
  | physical
  /-- Positions in what a program sees. -/
  | virtual
deriving DecidableEq, Repr

/-- A 32-bit machine address. -/
structure Address (realm : Realm) where
  val : Nat
  val_lt : val < addressLimit
deriving DecidableEq, Repr

abbrev PhysicalAddress := Address .physical

abbrev VirtualAddress := Address .virtual

namespace Address

variable {realm : Realm}

@[ext] theorem ext {a b : Address realm} (h : a.val = b.val) : a = b := by
  cases a; cases b; simp_all

/-! ## Making addresses -/

/-- The address `n`, if it fits in 32 bits. -/
def ofNat? (n : Nat) : Option (Address realm) :=
  if h : n < addressLimit then some ⟨n, h⟩ else none

/-- The address `n`; halts when it does not fit in 32 bits. -/
def ofNat (n : Nat) : Except Halt (Address realm) :=
  if h : n < addressLimit then .ok ⟨n, h⟩ else .error .addressTooWide

/-- A 32-bit word, read as an address. -/
def ofWord (w : UInt32) : Address realm :=
  ⟨w.toNat, w.toNat_lt⟩

/-- The address as a 32-bit word. -/
def toWord (a : Address realm) : UInt32 :=
  a.val.toUInt32

instance : Zero (Address realm) := ⟨⟨0, by decide⟩⟩

@[simp] theorem val_zero : (0 : Address realm).val = 0 := rfl

theorem ofNat_of_lt {n : Nat} (h : n < addressLimit) :
    (ofNat n : Except Halt (Address realm)) = .ok ⟨n, h⟩ := by
  simp [ofNat, h]

@[simp] theorem ofNat_val (a : Address realm) : ofNat a.val = .ok a := by
  simp [ofNat, a.val_lt]

theorem ofNat_eq_ok_iff {n : Nat} {a : Address realm} : ofNat n = .ok a ↔ n = a.val := by
  constructor
  · intro h
    unfold ofNat at h
    split at h
    · exact congrArg val (Except.ok.inj h)
    · cases h
  · rintro rfl
    exact ofNat_val a

@[simp] theorem val_ofWord (w : UInt32) : (ofWord w : Address realm).val = w.toNat := rfl

@[simp] theorem toNat_toWord (a : Address realm) : a.toWord.toNat = a.val :=
  Nat.mod_eq_of_lt a.val_lt

@[simp] theorem ofWord_toWord (a : Address realm) : (ofWord a.toWord : Address realm) = a :=
  ext a.toNat_toWord

theorem toWord_eq_zero {a : Address realm} : a.toWord = 0 ↔ a.val = 0 := by
  rw [← UInt32.toNat_inj, toNat_toWord, UInt32.toNat_zero]

/-! ## Alignment -/

/-- Whether the address is a multiple of `align`; halts unless `align` is a power of two. -/
def isAligned (a : Address realm) (align : Nat) : Except Halt Bool := do
  require (isPowerOfTwo align) .alignmentNotPowerOfTwo
  return lowBits a.val align == 0

/-- The greatest multiple of `align` that is not above the address; halts unless `align` is a power
of two. -/
def alignDown (a : Address realm) (align : Nat) : Except Halt (Address realm) := do
  require (isPowerOfTwo align) .alignmentNotPowerOfTwo
  return ⟨clearLow a.val align, Nat.lt_of_le_of_lt Nat.and_le_left a.val_lt⟩

/-- The least multiple of `align` that is not below the address; halts unless `align` is a power of
two and the result fits in 32 bits. -/
def alignUp (a : Address realm) (align : Nat) : Except Halt (Address realm) := do
  require (isPowerOfTwo align) .alignmentNotPowerOfTwo
  let past ← checkedAdd a.val align
  let last ← checkedSub past 1
  ofNat (clearLow last align)

/-- The position of the addressed byte within its page. -/
def pageOffset (a : Address realm) : Nat :=
  lowBits a.val pageSize

/-- Whether the address is the first of a page. -/
def isPageAligned (a : Address realm) : Bool :=
  a.pageOffset == 0

theorem pageOffset_lt (a : Address realm) : a.pageOffset < pageSize :=
  Nat.lt_of_le_of_lt Nat.and_le_right (by decide)

/-- The start of the page that contains the address. -/
def pageBase (a : Address realm) : Address realm :=
  ⟨clearLow a.val pageSize, Nat.lt_of_le_of_lt Nat.and_le_left a.val_lt⟩

/-! ## Arithmetic -/

/-- The address `n` bytes further up; halts when the sum leaves the word or the machine's range. -/
def add (a : Address realm) (n : Nat) : Except Halt (Address realm) := do
  ofNat (← checkedAdd a.val n)

/-- The sum of an address and an offset is what the machine computes, wherever it is an address. -/
theorem add_eq_ok_iff {a b : Address realm} {n : Nat} : a.add n = .ok b ↔ a.val + n = b.val := by
  unfold add
  simp only [bind_eq_ok_iff, checkedAdd_eq_ok_iff, ofNat_eq_ok_iff]
  constructor
  · rintro ⟨_, ⟨rfl, -⟩, hval⟩
    exact hval
  · intro hval
    exact ⟨_, ⟨rfl, hval ▸ Nat.lt_trans b.val_lt (by decide)⟩, hval⟩

/-- The address `n` bytes further down; halts when that lies below zero. -/
def sub (a : Address realm) (n : Nat) : Except Halt (Address realm) := do
  ofNat (← checkedSub a.val n)

/-- How many bytes `a` lies above `b`; halts when it lies below. -/
def distance (a b : Address realm) : Except Halt Nat :=
  checkedSub a.val b.val

/-! ## Text -/

/-- The address as consoles show it, `0x00001000`. -/
def text (a : Address realm) : String :=
  hexWord a.val

/-- The address as a bare pointer, `0x1000`. -/
def pointerText (a : Address realm) : String :=
  hex a.val

end Address

/-- The word that names a realm in the detailed text of its addresses. -/
def Realm.addressName : Realm → String
  | .physical => "PhysicalAddress"
  | .virtual => "VirtualAddress"

/-- The detailed text of an address, `PhysicalAddress(0x1000)`. -/
def Address.detail {realm : Realm} (a : Address realm) : String :=
  s!"{realm.addressName}({hex a.val})"

/-! ## Virtual addresses -/

namespace Address

/-- The directory slot that covers a virtual address: its bits 22 to 31. -/
def directoryIndex (a : VirtualAddress) : Fin directorySlots :=
  ⟨(a.val >>> directoryShift) &&& (directorySlots - 1),
    Nat.lt_of_le_of_lt Nat.and_le_right (by decide)⟩

/-- The entry of the second-level table that covers a virtual address: its bits 12 to 21. -/
def tableIndex (a : VirtualAddress) : Fin tableEntries :=
  ⟨(a.val >>> pageShift) &&& (tableEntries - 1),
    Nat.lt_of_le_of_lt Nat.and_le_right (by decide)⟩

/-- Whether a virtual address lies below the kernel segment. -/
def isUser (a : VirtualAddress) : Bool :=
  a.val < kernelSegment

end Address

end SoftPaging
