import SoftPaging.Address.Basic

/-!
# Page table entries

A leaf entry is kept in the very format that the TLB takes, so a refill copies it without
conversion. Bits 12 to 31 are the frame, and four flags lie below it:

* bit 11, `nocache`: accesses go past the data cache;
* bit 10, `dirty`: writes are permitted;
* bit 9, `valid`: the entry holds a translation;
* bit 8, `global`: the translation matches every address-space identifier.

A raw word keeps its eight lowest bits, which mean nothing; flags taken from a word do not.
-/

namespace SoftPaging

/-! ## Flags -/

/-- A set of page flags, each on its bit of the entry. -/
structure PageFlags where
  bits : UInt32
deriving DecidableEq, Repr

namespace PageFlags

def nocache : PageFlags := ⟨0x800⟩

def dirty : PageFlags := ⟨0x400⟩

def valid : PageFlags := ⟨0x200⟩

def global : PageFlags := ⟨0x100⟩

/-- The empty set of flags. -/
def empty : PageFlags := ⟨0⟩

/-- The four flags with their names, highest bit first. -/
def named : List (PageFlags × String) :=
  [(nocache, "NOCACHE"), (dirty, "DIRTY"), (valid, "VALID"), (global, "GLOBAL")]

/-- The flags of a mapping: valid, and writable if asked for. -/
def mapped (writable : Bool) : PageFlags :=
  if writable then ⟨valid.bits ||| dirty.bits⟩ else valid

/-- The flags among the bits of a word; the other bits are discarded. -/
def ofBits (w : UInt32) : PageFlags :=
  ⟨w &&& 0xF00⟩

/-- The flags of either set. -/
def union (a b : PageFlags) : PageFlags :=
  ⟨a.bits ||| b.bits⟩

/-- Whether every flag of `b` is in `a`. -/
def contains (a b : PageFlags) : Bool :=
  a.bits &&& b.bits == b.bits

/-- The detailed text of a set of flags: their names, highest bit first. -/
def detail (f : PageFlags) : String :=
  let names := (named.filter (f.contains ·.1)).map (·.2)
  "\x7b" ++ ", ".intercalate names ++ "\x7d"

end PageFlags

/-! ## Entries -/

/-- A leaf entry of a page table, and the low half of a TLB entry. -/
structure PageEntry where
  bits : UInt32
deriving DecidableEq, Repr

namespace PageEntry

/-- The bits of an entry that hold its frame. -/
def frameMask : UInt32 := 0xFFFFF000

/-- The entry that maps nothing. -/
def empty : PageEntry := ⟨0⟩

/-- The entry that maps a page to the frame at `frame`, which must be the start of one. -/
def map (frame : PhysicalAddress) (flags : PageFlags) : Except Halt PageEntry := do
  require (← frame.isAligned pageSize) .entryUnaligned
  return ⟨(frame.toWord &&& frameMask) ||| flags.bits⟩

/-- The flags of an entry. -/
def flags (e : PageEntry) : PageFlags :=
  .ofBits e.bits

/-- Whether the entry holds a translation. -/
def isValid (e : PageEntry) : Bool :=
  e.flags.contains .valid

/-- Whether the entry permits writes. -/
def isDirty (e : PageEntry) : Bool :=
  e.flags.contains .dirty

/-- The word at the place of the frame, whether or not the entry is valid. -/
def frameBits (e : PageEntry) : UInt32 :=
  e.bits &&& frameMask

/-- The frame the entry maps to, if it holds a translation. -/
def frame? (e : PageEntry) : Option PhysicalAddress :=
  if e.isValid then some (.ofWord e.frameBits) else none

/-- The physical address that the entry translates `a` to: the same offset within its frame. It fits
in 32 bits because the bits of the frame and those of the offset do not meet. -/
def translate (e : PageEntry) (a : VirtualAddress) : Option PhysicalAddress :=
  if e.isValid then
    some ⟨e.frameBits.toNat + a.pageOffset, by
      have hframe : e.frameBits.toNat ≤ 0xFFFFF000 := by
        simpa [frameBits, frameMask] using Nat.and_le_right
      have hoffset := a.pageOffset_lt
      simp only [addressLimit, pageSize] at *
      omega⟩
  else none

/-- The entry without write permission. -/
def writeProtect (e : PageEntry) : PageEntry :=
  ⟨e.bits &&& ~~~PageFlags.dirty.bits⟩

/-- The detailed text of an entry, `PageEntry` with its frame and its flags. -/
def detail (e : PageEntry) : String :=
  "PageEntry \x7b frame: " ++ hexWord e.frameBits.toNat ++ ", flags: " ++ e.flags.detail ++ " \x7d"

end PageEntry

end SoftPaging
