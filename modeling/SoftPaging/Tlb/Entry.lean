import SoftPaging.Paging.Entry

/-!
# TLB entries

An entry of the TLB pairs the page it matches, the high half, with the translation it supplies, a
page table entry. The high half keeps the virtual page in bits 12 to 31 and an address-space
identifier in bits 6 to 11; look-up compares the page alone, so the identifier is carried but does
not take part.
-/

namespace SoftPaging

/-! ## The high half -/

/-- The high half of a TLB entry. -/
structure EntryHi where
  bits : UInt32
deriving DecidableEq, Repr

namespace EntryHi

/-- The bits that hold the virtual page. -/
def pageMask : UInt32 := 0xFFFFF000

/-- The bits that hold the address-space identifier. -/
def pidMask : UInt32 := 0xFC0

/-- The position of the address-space identifier. -/
def pidShift : UInt32 := 6

/-- The high half that matches the page containing an address. -/
def ofAddress (a : VirtualAddress) : EntryHi :=
  ⟨a.toWord &&& pageMask⟩

/-- The high half written into slot `slot` when it is invalidated: a page of the kernel segment of
its own, so that no two invalid slots match one address. -/
def invalid (slot : Nat) : EntryHi :=
  ⟨.ofNat ((0x80000 + slot) <<< pageShift)⟩

/-- The invalid high half of a slot given as a word; halts when its page number leaves the word. -/
def checkedInvalid (slot : Nat) : Except Halt EntryHi := do
  discard <| checkedAdd 0x80000 slot
  return invalid slot

/-- The first address of the page that is matched. -/
def page (hi : EntryHi) : VirtualAddress :=
  .ofWord (hi.bits &&& pageMask)

/-- The address-space identifier. -/
def pid (hi : EntryHi) : UInt32 :=
  (hi.bits &&& pidMask) >>> pidShift

/-- The detailed text of a high half, `EntryHi(0x00001000, pid=0)`. -/
def detail (hi : EntryHi) : String :=
  s!"EntryHi({hi.page.text}, pid={hi.pid.toNat})"

end EntryHi

/-! ## The pair -/

/-- An entry of the TLB. -/
structure TlbEntry where
  /-- The page that is matched. -/
  hi : EntryHi
  /-- The translation that is supplied. -/
  lo : PageEntry
deriving DecidableEq, Repr

namespace TlbEntry

/-- The entry that translates the page containing `page` by `lo`. -/
def forPage (page : VirtualAddress) (lo : PageEntry) : TlbEntry :=
  ⟨.ofAddress page, lo⟩

/-- The entry written into slot `slot` when it is invalidated. -/
def invalid (slot : Nat) : TlbEntry :=
  ⟨.invalid slot, .empty⟩

/-- Whether the entry translates the address. -/
def isMatch (e : TlbEntry) (a : VirtualAddress) : Bool :=
  e.lo.isValid && e.hi.page == a.pageBase

/-- The address that `a` is translated to, if the entry matches it. -/
def translate (e : TlbEntry) (a : VirtualAddress) : Option PhysicalAddress :=
  if e.isMatch a then e.lo.translate a else none

/-- The detailed text of an entry. -/
def detail (e : TlbEntry) : String :=
  "TlbEntry \x7b hi: " ++ e.hi.detail ++ ", lo: " ++ e.lo.detail ++ " \x7d"

end TlbEntry

end SoftPaging
