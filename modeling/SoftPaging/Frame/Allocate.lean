import SoftPaging.Kernel.State

/-!
# Handing out frames

The operations on the frame pool: setting it up (`setUpPool`, `bootPool`), handing out runs of frames
(`allocate`, `allocateCleared`), taking them back (`free`, `freeOwned`), and the kernel's own requests
for pages (`allocateKernelPages`, `freeKernelPages`).

`free` refuses an address that was not handed out. Its rules apply in this order: the address must be
the start of a frame, the frame must be one the pool hands out, it must be allocated, and it must not
continue the frame before it. `freeOwned` is for the owner of a frame, who cannot be refused: it halts
where `free` refuses.
-/

namespace SoftPaging

/-- The layout of a pool over `ramSize` bytes of RAM, at most `maxRam` of them, whose records lie at
`firstFree`. -/
def FramePool.layout (ramSize : Nat) (firstFree : PhysicalAddress) : FramePool :=
  let total := min ramSize maxRam / pageSize
  ⟨firstFree, total, framesFor (firstFree.val + total)⟩

namespace Op

open Transition (refuse halt observe change)

/-! ## Setting up -/

/-- Writes the records of a pool over `ramSize` bytes of RAM to the memory at `firstFree`, the first
address that the kernel has not claimed. Halts unless both are whole pages and a frame is left. -/
def setUpPool (ramSize : Nat) (firstFree : PhysicalAddress) : Op FramePool := do
  require (ramSize % pageSize == 0) .ramSizeUnaligned
  require (← firstFree.isAligned pageSize) .firstFreeUnaligned
  if maxRam < ramSize then
    record (.ramIgnored (ramSize - maxRam))
  let p := FramePool.layout ramSize firstFree
  require (p.reserved < p.total) .recordsFillRam
  reachFrame firstFree
  onRam fun ram => p.writeRecords ram 0 p.total
  record (.poolReady p.total (min ramSize maxRam) firstFree p.reserved)
  return p

/-- Sets up a pool and installs it; halts at once when there is one already. -/
def bootPool (ramSize : Nat) (firstFree : PhysicalAddress) : Op FramePool := do
  if ← observe (·.pool?.isSome) then halt .poolAlreadySet
  let p ← setUpPool ramSize firstFree
  setPool p
  return p

/-! ## Handing out -/

/-- Hands out `count` adjacent frames, the first that are free; refused when there are none. -/
def allocate (count : Nat) : Op PhysicalAddress := do
  let p ← pool
  require (0 < count) .zeroFrames
  match ← (← look (p.find · count)) with
  | none =>
    record (.noRun count)
    refuse .outOfMemory
  | some first =>
    onRam fun ram => p.takeRun ram first count
    let start ← (Number.mk first : FrameNumber).start
    record (.allocated count start)
    return start

/-- Hands out `count` adjacent frames filled with zeros. -/
def allocateCleared (count : Nat) : Op PhysicalAddress := do
  let start ← allocate count
  reachFrame start
  onRam fun ram => ram.fill start.val (count * pageSize) 0
  return start

/-! ## Taking back -/

/-- Takes back the allocation that starts at `a`; answers how many frames it had. -/
def free (a : PhysicalAddress) : Op Nat := do
  let p ← pool
  if !(← a.isAligned pageSize) then refuse .badAddress
  let i := a.number.val
  if i < p.reserved || p.total ≤ i then refuse .badAddress
  if ← look (p.isFree · i) then refuse .doubleFree
  if (← look (p.record · (i - 1))).continues then refuse .badAddress
  let released ← look (p.runLength · i)
  onRam fun ram => p.freeRun ram i
  record (.freed released a)
  return released

/-- Takes back the allocation that starts at `a`; halts where `free` refuses. -/
def freeOwned (a : PhysicalAddress) : Op Unit := do
  match ← (free a).attempt with
  | .ok _ => return ()
  | .error cause => halt (.freeRefused a.val cause)

/-! ## Pages for the kernel -/

/-- Hands out `count` adjacent frames by their kernel address, or nothing when there are none. -/
def allocateKernelPages (count : Nat) : Op (Option KernelAddress) := do
  match ← (allocate count).attempt with
  | .ok start => return some (← directMapped start)
  | .error cause =>
    record (.kernelPagesRefused count cause)
    return none

/-- Takes back the pages at a kernel address. -/
def freeKernelPages (v : KernelAddress) : Op Unit := do
  discard pool
  freeOwned (← fromDirectMapped v)

end Op

end SoftPaging
