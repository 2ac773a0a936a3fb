import SoftPaging.Address.Number
import SoftPaging.Frame.Record
import SoftPaging.Ram.Basic

/-!
# The frame pool

The pool manages the frames of RAM from `reserved` up to `total`. Its records, one byte a frame,
lie in RAM themselves, from the address `records` on; the frames below `reserved` hold the kernel
and those records, are marked allocated, and are never handed out.

Allocation is first fit. A single frame is the first free record (`firstFree?`); a run of `n` frames
is the first window of `n` free records (`firstWindow?`). The last frame of a run does not have its
`continues` flag set, so a run can be given back whole by naming its first frame: `freeRun` clears
the records for as long as they continue.

The functions here are about records in RAM alone. What an allocation answers, and what it writes
to the log, is in `SoftPaging.Frame.Allocate`.
-/

namespace SoftPaging

/-- The layout of the frame pool. -/
structure FramePool where
  /-- Where the record of frame zero lies. -/
  records : PhysicalAddress
  /-- The number of frames of managed RAM. -/
  total : Nat
  /-- The first frame that may be handed out. -/
  reserved : Nat
deriving DecidableEq, Repr

namespace FramePool

/-! ## Records in RAM -/

/-- The record of frame `i`. -/
def record (p : FramePool) (ram : Ram) (i : Nat) : FrameRecord :=
  ⟨ram.byte (p.records.val + i)⟩

/-- Writes the record of frame `i`. -/
def setRecord (p : FramePool) (ram : Ram) (i : Nat) (r : FrameRecord) : Ram :=
  ram.store (p.records.val + i) r.bits

/-- Whether frame `i` is free. -/
def isFree (p : FramePool) (ram : Ram) (i : Nat) : Bool :=
  !(p.record ram i).isAllocated

/-- Writes fresh records for the `n` frames from `i` on: allocated below `reserved`, free above. -/
def writeRecords (p : FramePool) (ram : Ram) (i n : Nat) : Ram :=
  match n with
  | 0 => ram
  | n + 1 =>
    let fresh := if i < p.reserved then FrameRecord.clear.set .allocated else .clear
    p.writeRecords (p.setRecord ram i fresh) (i + 1) n

@[simp] theorem size_setRecord (p : FramePool) (ram : Ram) (i : Nat) (r : FrameRecord) :
    (p.setRecord ram i r).size = ram.size :=
  Ram.size_store _ _ _

theorem record_setRecord_self (p : FramePool) {ram : Ram} {i : Nat} (r : FrameRecord)
    (h : p.records.val + i < ram.size) : p.record (p.setRecord ram i r) i = r := by
  rw [record, setRecord, Ram.byte_store, if_pos ⟨rfl, h⟩]

theorem record_setRecord_of_ne (p : FramePool) {ram : Ram} {i j : Nat} (r : FrameRecord)
    (h : i ≠ j) : p.record (p.setRecord ram i r) j = p.record ram j := by
  rw [record, setRecord, Ram.byte_store, if_neg (by omega), record]

/-! ## Searching -/

/-- The first free frame among the `n` frames from `i` on. -/
def firstFreeFrom (p : FramePool) (ram : Ram) (i n : Nat) : Option Nat :=
  match n with
  | 0 => none
  | n + 1 => if p.isFree ram i then some i else p.firstFreeFrom ram (i + 1) n

/-- The first free frame of the pool. -/
def firstFree? (p : FramePool) (ram : Ram) : Option Nat :=
  p.firstFreeFrom ram p.reserved (p.total - p.reserved)

/-- Searches for a window of `count` free frames, knowing that the `run` frames from `start` on are
free. A window that meets an allocated frame starts over just past it. Where a window would end is
computed before every look at a record, and halts when it leaves the word. -/
def windowFrom (p : FramePool) (ram : Ram) (count start run : Nat) : Except Halt (Option Nat) :=
  if run < count then
    if start + count < wordLimit then
      if start + count ≤ p.total then
        if p.isFree ram (start + run) then p.windowFrom ram count start (run + 1)
        else p.windowFrom ram count (start + run + 1) 0
      else .ok none
    else .error .addOverflow
  else .ok (if run = count then some start else none)
termination_by p.total - (start + run)

/-- The start of the first window of `count` free frames. -/
def firstWindow? (p : FramePool) (ram : Ram) (count : Nat) : Except Halt (Option Nat) :=
  p.windowFrom ram count p.reserved 0

/-- Where an allocation of `count` frames starts. -/
def find (p : FramePool) (ram : Ram) (count : Nat) : Except Halt (Option Nat) :=
  if count = 1 then .ok (p.firstFree? ram) else p.firstWindow? ram count

/-! ## Changing records -/

/-- Marks the `n` frames from `i` on as one allocation: all of them allocated, and each but the last
continuing into the next. -/
def takeRun (p : FramePool) (ram : Ram) (i n : Nat) : Ram :=
  match n with
  | 0 => ram
  | n + 1 =>
    let taken := (p.record ram i).set .allocated
    let linked := if n = 0 then taken.unset .continues else taken.set .continues
    p.takeRun (p.setRecord ram i linked) (i + 1) n

/-- The frame just past the allocation that frame `i` belongs to, looking at no more than `n`
records. -/
def runEndFrom (p : FramePool) (ram : Ram) (i n : Nat) : Nat :=
  match n with
  | 0 => i
  | n + 1 => if (p.record ram i).continues then p.runEndFrom ram (i + 1) n else i + 1

/-- The number of frames from frame `i` to the end of its allocation, or to the end of managed RAM if
the records continue up to there. -/
def runLength (p : FramePool) (ram : Ram) (i : Nat) : Nat :=
  p.runEndFrom ram i (p.total - i) - i

/-- Clears both flags of the `n` records from frame `i` on. -/
def clearRun (p : FramePool) (ram : Ram) (i n : Nat) : Ram :=
  match n with
  | 0 => ram
  | n + 1 =>
    let freed := ((p.record ram i).unset .allocated).unset .continues
    p.clearRun (p.setRecord ram i freed) (i + 1) n

/-- Frees the allocation that starts at frame `i`. -/
def freeRun (p : FramePool) (ram : Ram) (i : Nat) : Ram :=
  p.clearRun ram i (p.runLength ram i)

/-! ## Counting -/

/-- The number of the `n` frames from `i` on whose record satisfies `q`, added to `acc`. -/
def countFrom (p : FramePool) (ram : Ram) (q : FrameRecord → Bool) (i n acc : Nat) : Nat :=
  match n with
  | 0 => acc
  | n + 1 => p.countFrom ram q (i + 1) n (if q (p.record ram i) then acc + 1 else acc)

/-- The number of frames whose record says they are free. -/
def freeFrames (p : FramePool) (ram : Ram) : Nat :=
  p.countFrom ram (fun r => !r.isAllocated) 0 p.total 0

/-- The number of frames handed out; the reserved ones do not count. -/
def allocatedFrames (p : FramePool) (ram : Ram) : Nat :=
  p.countFrom ram FrameRecord.isAllocated p.reserved (p.total - p.reserved) 0

/-- Whether the frame that contains the address is allocated or reserved. An address past managed
RAM is not. -/
def isAllocated (p : FramePool) (ram : Ram) (a : PhysicalAddress) : Bool :=
  a.number.val < p.total && !p.isFree ram a.number.val

/-- The maximal runs of allocated or reserved frames up to the `n`-th frame from `i` on, each as its
first frame and its length, latest first: `found` lists those that end below `i`, and a run that
reaches up to `i` heads it while `grows` is set. -/
def runsFrom (p : FramePool) (ram : Ram) (i n : Nat) (found : List (Nat × Nat))
    (grows : Bool) : List (Nat × Nat) :=
  match n with
  | 0 => found
  | n + 1 =>
    if p.isFree ram i then p.runsFrom ram (i + 1) n found false
    else match grows, found with
      | true, (start, length) :: earlier =>
        p.runsFrom ram (i + 1) n ((start, length + 1) :: earlier) true
      | _, _ => p.runsFrom ram (i + 1) n ((i, 1) :: found) true

/-- The maximal runs of allocated or reserved frames, lowest first. -/
def runs (p : FramePool) (ram : Ram) : List (Nat × Nat) :=
  (p.runsFrom ram 0 p.total [] false).reverse

end FramePool

end SoftPaging
