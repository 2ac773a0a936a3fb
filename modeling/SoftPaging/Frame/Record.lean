/-!
# Frame records

One byte is kept for every frame of managed RAM. Bit 0 says that the frame is allocated (or
reserved), bit 1 that the next frame belongs to the same allocation. The other six bits have no
meaning, and setting or clearing a flag leaves them as they are.
-/

namespace SoftPaging

/-- The two flags of a frame record. -/
inductive FrameFlag where
  /-- The frame is handed out or reserved. -/
  | allocated
  /-- The following frame belongs to the same allocation. -/
  | continues
deriving DecidableEq, Repr

/-- The bit of a record that holds the flag. -/
def FrameFlag.mask : FrameFlag → UInt8
  | allocated => 1
  | continues => 2

/-- The record of one frame. -/
structure FrameRecord where
  bits : UInt8
deriving DecidableEq, Repr

namespace FrameRecord

/-- The record of a free frame. -/
def clear : FrameRecord :=
  ⟨0⟩

/-- The record with the flag set. -/
def set (r : FrameRecord) (flag : FrameFlag) : FrameRecord :=
  ⟨r.bits ||| flag.mask⟩

/-- The record with the flag cleared. -/
def unset (r : FrameRecord) (flag : FrameFlag) : FrameRecord :=
  ⟨r.bits &&& ~~~flag.mask⟩

/-- Whether the flag is set. -/
def test (r : FrameRecord) (flag : FrameFlag) : Bool :=
  r.bits &&& flag.mask != 0

/-- Whether the frame is handed out or reserved. -/
def isAllocated (r : FrameRecord) : Bool :=
  r.test .allocated

/-- Whether the next frame belongs to the same allocation. -/
def continues (r : FrameRecord) : Bool :=
  r.test .continues

/-- Setting a flag sets it and leaves the other alone. -/
theorem test_set (r : FrameRecord) (flag other : FrameFlag) :
    (r.set flag).test other = (flag == other || r.test other) := by
  obtain ⟨⟨⟨bits⟩⟩⟩ := r
  cases flag <;> cases other <;> (revert bits; decide +kernel)

/-- Clearing a flag clears it and leaves the other alone. -/
theorem test_unset (r : FrameRecord) (flag other : FrameFlag) :
    (r.unset flag).test other = (flag != other && r.test other) := by
  obtain ⟨⟨⟨bits⟩⟩⟩ := r
  cases flag <;> cases other <;> (revert bits; decide +kernel)

theorem test_clear (flag : FrameFlag) : clear.test flag = false := by
  cases flag <;> rfl

/-- The detailed text of a record, which shows its byte. -/
def detail (r : FrameRecord) : String :=
  "Frame \x7b flags: FrameFlags(" ++ toString r.bits.toNat ++ ") \x7d"

end FrameRecord

end SoftPaging
