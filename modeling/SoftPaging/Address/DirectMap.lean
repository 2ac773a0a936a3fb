import SoftPaging.Address.Basic

/-!
# The direct map

The kernel reaches physical memory through a range of its own addresses that is mapped onto RAM
directly. A `DirectMap` says where that range lies.

* With a hardware offset, physical address `p` is found at `p + offset`, and a kernel address must
  fit in the machine's 32 bits.
* With a window onto emulated RAM, it is found at `base + p` for `p` below the size of the window,
  and kernel addresses are addresses of the host.

Kernel addresses are 64-bit words and their arithmetic wraps.
-/

namespace SoftPaging

/-- A 64-bit address of the kernel. -/
abbrev KernelAddress := UInt64

/-- The ways in which the kernel reaches physical memory. -/
inductive DirectMap where
  /-- A hardware segment at a fixed distance. -/
  | segment (offset : UInt64)
  /-- A window of the host's memory that stands for RAM. -/
  | window (base : UInt64) (size : Nat)
deriving DecidableEq, Repr

namespace DirectMap

/-- The largest size of emulated RAM: what a host with 64-bit addresses can allocate at once, on a
page boundary. -/
abbrev largestWindow : Nat := 9223372036854771712

/-- A window of `size` bytes at `base`; halts unless `size` is a positive number of whole pages that
the host can allocate. -/
def emulated (base : UInt64) (size : Nat) : Except Halt DirectMap := do
  require (0 < size && size % pageSize == 0) .ramNotWholePages
  require (size ≤ largestWindow) .ramTooLarge
  return .window base size

/-- The kernel address of a physical position; halts when the window does not reach it. -/
def kernelOf : DirectMap → UInt64 → Except Halt KernelAddress
  | segment offset, p => .ok (p + offset)
  | window base size, p =>
    if p.toNat < size then .ok (base + p) else .error .physicalOutOfBounds

/-- The physical position of a kernel address; halts when the address lies outside the window. -/
def physicalOf : DirectMap → KernelAddress → Except Halt UInt64
  | segment offset, v => .ok (v - offset)
  | window base size, v =>
    if (v - base).toNat < size then .ok (v - base) else .error .foreignKernelAddress

/-- The kernel address through which a physical address is reached. In a hardware segment it must
itself be a machine address; addresses of the host are under no such limit. -/
def reach (m : DirectMap) (p : PhysicalAddress) : Except Halt KernelAddress := do
  let v ← m.kernelOf p.val.toUInt64
  match m with
  | segment _ => require (v.toNat < addressLimit) .addressTooWide
  | window _ _ => pure ()
  return v

/-- The physical address that a kernel address reaches. -/
def reached (m : DirectMap) (v : KernelAddress) : Except Halt PhysicalAddress := do
  Address.ofNat (← m.physicalOf v).toNat

/-! ## Under a window -/

theorem kernelOf_window {base p : UInt64} {size : Nat} (h : p.toNat < size) :
    (window base size).kernelOf p = .ok (base + p) :=
  if_pos h

theorem reach_window {base : UInt64} {size : Nat} {p : PhysicalAddress} (h : p.val < size) :
    (window base size).reach p = .ok (base + p.val.toUInt64) := by
  have hword : p.val.toUInt64.toNat = p.val :=
    Nat.mod_eq_of_lt (Nat.lt_trans p.val_lt (by decide))
  rw [reach, kernelOf_window (by rw [hword]; exact h)]
  rfl

end DirectMap

end SoftPaging
