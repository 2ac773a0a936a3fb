import SoftPaging.Frame.Allocate
import SoftPaging.Ram.Word

/-!
# Values that own a frame

A `FrameCell` is a value kept at the start of a frame of its own. Making one takes a frame from the
pool; releasing it releases the value and gives the frame back. A cell may hold another cell, and
then releasing the outer one releases the inner one first.

How a type of value lies in RAM, and what its values own, is said by `Stored`. Numbers own nothing;
an optional cell lies in RAM as the word of its frame, with zero for none, and owns that frame. Frame
zero is never handed out, so no cell is mistaken for none.
-/

namespace SoftPaging

/-- Types of value that can be kept in a frame. -/
class Stored (α : Type) where
  /-- The value at a position of RAM. -/
  load : Ram → Nat → α
  /-- Writes a value to a position of RAM. -/
  store : Ram → Nat → α → Ram
  /-- Gives back what a value owns. -/
  release : α → Op Unit

instance : Stored UInt8 where
  load ram i := ram.byte i
  store ram i v := ram.store i v
  release _ := pure ()

instance : Stored UInt32 where
  load ram i := ram.word i
  store ram i v := ram.storeWord i v
  release _ := pure ()

/-- A value of type `α` in a frame of its own. -/
structure FrameCell (α : Type) where
  frame : PhysicalAddress
deriving DecidableEq, Repr

namespace Op

/-- Takes a frame for a value that is about to be written to it, and makes sure it can be reached. -/
def takeFrame : Op PhysicalAddress := do
  let frame ← allocate 1
  reachFrame frame
  return frame

/-- Halts on frame zero, which stands for the absence of a cell. -/
def rejectFrameZero (frame : PhysicalAddress) : Op Unit :=
  require (frame.val != 0) .frameZero

end Op

namespace FrameCell

variable {α : Type} [Stored α]

/-- Moves a value into a frame of its own. The value is released when there is no frame for it. -/
def new (v : α) : Op (FrameCell α) := do
  let frame ← Op.takeFrame.onRefusal fun _ => Stored.release v
  Op.onRam fun ram => Stored.store ram frame.val v
  Op.rejectFrameZero frame
  return ⟨frame⟩

/-- The value of a cell. -/
def read (c : FrameCell α) : Op α := do
  Op.reachFrame c.frame
  Op.look (Stored.load · c.frame.val)

/-- Stores a value in a cell and releases the one that was there. -/
def replace (c : FrameCell α) (v : α) : Op Unit := do
  Stored.release (← c.read)
  Op.onRam fun ram => Stored.store ram c.frame.val v

/-- Releases the value of a cell and gives back its frame. -/
def release (c : FrameCell α) : Op Unit := do
  Stored.release (← c.read)
  Op.freeOwned c.frame

/-- The detailed text of a cell: its frame, and its value as `text` has it. -/
def detail (c : FrameCell α) (text : α → Op String) : Op String := do
  let value ← text (← c.read)
  return "FrameBox \x7b frame: " ++ c.frame.detail ++ ", value: " ++ value ++ " \x7d"

end FrameCell

/-! ## Cells in cells -/

instance {α : Type} [Stored α] : Stored (Option (FrameCell α)) where
  load ram i := if ram.word i = 0 then none else some ⟨.ofWord (ram.word i)⟩
  store ram i v :=
    ram.storeWord i (match v with | some inner => inner.frame.toWord | none => 0)
  release
    | some inner => inner.release
    | none => pure ()

/-! ## Arrays of 16-bit words -/

/-- An array of 2048 16-bit words, which fills a frame. -/
abbrev Halves := Vector UInt16 2048

instance : Stored Halves where
  load ram i := Vector.ofFn fun j => ram.half (i + 2 * j.val)
  store ram i v := (List.finRange 2048).foldl (fun ram j => ram.storeHalf (i + 2 * j.val) v[j]) ram
  release _ := pure ()

namespace FrameCell

/-- The element of an array at position `i`; halts past its end. -/
def element (c : FrameCell Halves) (i : Nat) : Op UInt16 := do
  Op.reachFrame c.frame
  let j ← checkedIndex 2048 i
  Op.look (·.half (c.frame.val + 2 * j.val))

/-- Stores an element of an array; halts past its end. -/
def setElement (c : FrameCell Halves) (i : Nat) (v : UInt16) : Op Unit := do
  Op.reachFrame c.frame
  let j ← checkedIndex 2048 i
  Op.onRam fun ram => ram.storeHalf (c.frame.val + 2 * j.val) v

end FrameCell

end SoftPaging
