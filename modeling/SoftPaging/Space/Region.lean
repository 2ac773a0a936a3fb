import SoftPaging.Address.Number

/-!
# Regions

A region is a page-aligned range of a program's addresses with a set of permissions. It remembers
the permissions it was defined with, so that a loader can open it for writing and put things back
afterwards.

The range ends at `base + size`, which may lie past the addresses of the machine, and halts where it
leaves the 64-bit word. Membership looks at the end only for addresses that are not below the base.
-/

namespace SoftPaging

/-! ## Permissions -/

/-- What a program may do with the bytes of a region. -/
structure Permissions where
  readable : Bool
  writable : Bool
  executable : Bool
deriving DecidableEq, Repr

namespace Permissions

/-- No access at all. -/
def none : Permissions := ⟨false, false, false⟩

/-- The accesses that either set allows. -/
def union (p q : Permissions) : Permissions :=
  ⟨p.readable || q.readable, p.writable || q.writable, p.executable || q.executable⟩

/-- Whether `p` allows every access that `q` allows. -/
def contains (p q : Permissions) : Bool :=
  (p.readable || !q.readable) && (p.writable || !q.writable) && (p.executable || !q.executable)

/-- The same permissions with write access. -/
def withWrite (p : Permissions) : Permissions :=
  ⟨p.readable, true, p.executable⟩

/-- The three letters of a set of permissions, with a dash for each access that is not allowed. -/
def text (p : Permissions) : String :=
  String.ofList
    [if p.readable then 'r' else '-', if p.writable then 'w' else '-',
      if p.executable then 'x' else '-']

end Permissions

/-! ## Regions -/

/-- A page-aligned range of addresses with its permissions. -/
structure Region where
  base : VirtualAddress
  size : Nat
  /-- The permissions in force. -/
  permissions : Permissions
  /-- The permissions the region was defined with. -/
  declared : Permissions
deriving DecidableEq, Repr

namespace Region

/-- The region of `size` bytes from `base` on; halts unless both are whole pages. -/
def define (base : VirtualAddress) (size : Nat) (permissions : Permissions) :
    Except Halt Region := do
  require (← base.isAligned pageSize) .regionBaseUnaligned
  require (size % pageSize == 0) .regionSizeUnaligned
  return ⟨base, size, permissions, permissions⟩

/-- The first position past the region; halts when it leaves the word. -/
def limit (r : Region) : Except Halt Nat :=
  checkedAdd r.base.val r.size

/-- Whether the region contains the address. -/
def contains (r : Region) (a : VirtualAddress) : Except Halt Bool := do
  if r.base.val ≤ a.val then
    return decide (a.val < (← r.limit))
  else return false

/-- The first page of the region and the page past its last. -/
def pageBounds (r : Region) : Except Halt (PageNumber × PageNumber) := do
  return (r.base.number, ⟨(← r.limit) / pageSize⟩)

/-- The pages of the region, lowest first. -/
def pages (r : Region) : Except Halt (List PageNumber) := do
  let (first, past) ← r.pageBounds
  return first.upTo past

/-- The first `limit` pages of the region, without building the rest. -/
def firstPages (r : Region) (limit : Nat) : Except Halt (List PageNumber) := do
  let (first, past) ← r.pageBounds
  return first.firstUpTo past limit

/-- Grants write access until `restore`. -/
def allowWrites (r : Region) : Region :=
  { r with permissions := r.permissions.withWrite }

/-- Puts back the permissions the region was defined with. -/
def restore (r : Region) : Region :=
  { r with permissions := r.declared }

/-- The text of a region, `Region(0x00400000..0x00402000 r-x)`. -/
def text (r : Region) : String :=
  s!"Region({r.base.text}..{hexWord (r.base.val + r.size)} {r.permissions.text})"

/-- The text of a region of any size; halts when its end leaves the word. -/
def detail (r : Region) : Except Halt String := do
  discard r.limit
  return r.text

end Region

end SoftPaging
