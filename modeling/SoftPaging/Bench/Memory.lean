import SoftPaging.Bench.State

/-!
# Commands on memory

What the commands on the direct map, the frame pool and RAM do. A kernel address is shown by its
distance from the start of the window when RAM is emulated, because where the host put that window
is of no interest; in a hardware segment it is shown as it is.

The bench reads and writes a range of RAM only after both its ends were reached through the direct
map. A range that is empty is reached at its start alone.
-/

namespace SoftPaging

namespace Bench

open Run
open Transition (refuse observe change)

/-! ## The direct map -/

/-- The largest emulated RAM that the bench sets up, 64 MiB. -/
def largestRam : Nat := 67108864

/-- Sets up emulated RAM. -/
def installRam (size : Nat) : Run Reply := do
  discard <| DirectMap.emulated windowBase size
  if largestRam < size then refuse (.badArgument "size")
  Op.installRam windowBase size
  return .value .nothing

/-- A kernel address as it is shown. -/
def shownKernel (m : DirectMap) (v : KernelAddress) : Nat :=
  match m with
  | .window base _ => (v - base).toNat
  | .segment _ => v.toNat

/-- The kernel address that is shown as the given number. -/
def kernelShownAs (m : DirectMap) (n : Nat) : KernelAddress :=
  match m with
  | .window base _ => n.toUInt64 + base
  | .segment _ => n.toUInt64

/-- The physical address behind a shown kernel address, which a hardware segment wants to fit the
machine. -/
def reachedFrom (n : Nat) : Op PhysicalAddress := do
  let m ← Op.directMap
  match m with
  | .segment _ => require (n < addressLimit) .addressTooWide
  | .window .. => pure ()
  m.reached (kernelShownAs m n)

/-! ## The frame pool -/

/-- Whether the pool over `ram` bytes manages more memory than the window onto emulated RAM has. -/
def overcommits (m? : Option DirectMap) (ram : Nat) : Bool :=
  match m? with
  | some (.window _ size) => size < ram
  | _ => false

/-- The report of a pool that was just installed: its total and its reserved frames. -/
def installed (p : FramePool) (ram : Nat) : Run Reply := do
  change fun b => { b with overcommitted := overcommits b.kernel.directMap? ram }
  return .value (.numbers [p.total, p.reserved])

/-- An allocation that answers the address of its first frame and may bind a name to it. -/
def allocation (x : Op PhysicalAddress) (name? : Option String) : Run Reply := do
  let start ← x
  bindName name? start
  return .done (.number start.val)

/-- An allocation of pages for the kernel, shown by the physical address behind them. -/
def allocatePages (count : Nat) (name? : Option String) : Run Reply := do
  match ← Op.allocateKernelPages count with
  | none => return .value .nothing
  | some v =>
    let start ← Op.fromDirectMapped v
    bindName name? start
    return .value (.number start.val)

/-! ## RAM -/

/-- Halts unless the direct map reaches both ends of the `n` bytes from `start` on. -/
def reachRange (start : PhysicalAddress) (n : Nat) : Op Unit := do
  Op.reachFrame start
  if 0 < n then
    Op.reachFrame (← start.add (n - 1))

/-- The lengths of the runs of equal bytes, each with its byte; `found` lists the runs before,
latest first. -/
def byteRuns (found : List (Nat × UInt8)) : List UInt8 → List (Nat × UInt8)
  | [] => found.reverse
  | v :: vs =>
    match found with
    | (n, w) :: earlier =>
      if v = w then byteRuns ((n + 1, w) :: earlier) vs else byteRuns ((1, v) :: found) vs
    | [] => byteRuns [(1, v)] vs

/-- Sets every byte of a range of RAM. -/
def fill (start : PhysicalAddress) (n : Nat) (v : UInt8) : Op Unit := do
  reachRange start n
  Op.onRam fun ram => ram.fill start.val n v

/-- Writes bytes to a range of RAM. -/
def poke (start : PhysicalAddress) (bytes : List UInt8) : Op Unit := do
  reachRange start bytes.length
  Op.onRam fun ram => ram.storeBytes start.val bytes

/-- Shows the bytes of a range of RAM, run by run. -/
def peek (start : PhysicalAddress) (n : Nat) : Op Answer := do
  reachRange start n
  let bytes ← Op.look (·.slice start.val n)
  return .pairs ((byteRuns [] bytes).map fun (n, v) => (n, v.toNat))

end Bench

end SoftPaging
