import SoftPaging.Tlb.Entry

/-!
# The translation lookaside buffer

The TLB has 64 slots. A refill writes the slot that the Random register names, and the register then
counts down from the top slot to the first slot that is not wired and starts over at the top, so
random writes never land in a wired slot.

Look-up goes through the slots from the lowest: `probe` names the first slot that matches an address
and `translate` answers what the first matching slot supplies.
-/

namespace SoftPaging

/-- The TLB: its slots and its Random register. -/
structure TlbBuffer where
  slots : Vector TlbEntry tlbSlots
  random : Fin tlbSlots
deriving DecidableEq, Repr

namespace TlbBuffer

/-- The TLB with every slot invalid. -/
def empty : TlbBuffer :=
  ⟨Vector.ofFn fun slot => .invalid slot.val, ⟨tlbSlots - 1, by decide⟩⟩

/-! ## Writing -/

/-- Where the Random register goes after a write: one down, or back to the top from the lowest slot
that is not wired. -/
def nextRandom (r : Fin tlbSlots) : Fin tlbSlots :=
  if r.val ≤ tlbWiredSlots then ⟨tlbSlots - 1, by decide⟩
  else ⟨r.val - 1, Nat.lt_of_le_of_lt (Nat.sub_le _ _) r.isLt⟩

/-- Writes a slot. -/
def write (b : TlbBuffer) (slot : Fin tlbSlots) (e : TlbEntry) : TlbBuffer :=
  ⟨b.slots.set slot e, b.random⟩

/-- Writes a slot given by its number; halts when there is no such slot. -/
def checkedWrite (b : TlbBuffer) (slot : Nat) (e : TlbEntry) : Except Halt TlbBuffer :=
  if h : slot < tlbSlots then .ok (b.write ⟨slot, h⟩ e) else .error .tlbSlotRange

/-- Writes the slot that the Random register names and moves the register on. -/
def writeRandom (b : TlbBuffer) (e : TlbEntry) : TlbBuffer :=
  ⟨b.slots.set b.random e, nextRandom b.random⟩

/-! ## Looking up -/

/-- The lowest slot that translates the address. -/
def probe (b : TlbBuffer) (a : VirtualAddress) : Option Nat :=
  b.slots.toList.findIdx? (·.isMatch a)

/-- The address that the TLB translates `a` to. -/
def translate (b : TlbBuffer) (a : VirtualAddress) : Option PhysicalAddress :=
  b.slots.toList.findSome? (·.translate a)

/-- The entry in a slot; halts when there is no such slot. -/
def entry (b : TlbBuffer) (slot : Nat) : Except Halt TlbEntry := do
  return b.slots[← checkedIndex tlbSlots slot]

/-- How many slots hold a valid translation. -/
def validEntries (b : TlbBuffer) : Nat :=
  b.slots.toList.countP (·.lo.isValid)

/-- The slots, with their numbers, that hold something other than their invalid entry. -/
def occupied (b : TlbBuffer) : List (Nat × TlbEntry) :=
  b.slots.toList.zipIdx.filterMap fun (e, slot) =>
    if e = .invalid slot then none else some (slot, e)

end TlbBuffer

end SoftPaging
