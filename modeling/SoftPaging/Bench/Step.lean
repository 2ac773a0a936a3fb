import SoftPaging.Bench.Memory
import SoftPaging.Bench.Object

/-!
# Running commands

`Bench.step` runs one command and answers the report and the bench after it, or the halt that stopped
the machine. `Bench.run` runs a list of commands up to the first halt.

A command first finds out which addresses it is about, then which objects, and only then does its
work, so a command that names a missing object changes nothing. A command that makes an object
looks at the new name before any other.
-/

namespace SoftPaging

namespace Bench

open Run
open Transition (refuse observe)

/-- Runs a command. -/
def runCommand : Command → Run Reply
  | .installRam size => installRam size
  | .installSegment offset => do
    Op.setDirectMap (.segment offset.toUInt64)
    return .value .nothing
  | .hasDirectMap => return .value (.truth (← observe (·.kernel.directMap?.isSome)))
  | .kernelOf p => do
    let p ← position p
    let m ← Op.directMap
    return .value (.number (shownKernel m (← m.kernelOf p)))
  | .reach p => do
    let p ← physical p
    let m ← Op.directMap
    return .value (.number (shownKernel m (← Op.directMapped p)))
  | .physicalOf n => do
    let m ← Op.directMap
    return .value (.number (← m.physicalOf (kernelShownAs m n)).toNat)
  | .reached n => return .value (.number (← reachedFrom n).val)
  | .bootPool ram firstFree => do
    let firstFree ← physical firstFree
    installed (← Op.bootPool ram firstFree) ram
  | .setUpPool ram firstFree => do
    let firstFree ← physical firstFree
    let p ← Op.setUpPool ram firstFree
    Op.setPool p
    installed p ram
  | .hasPool => return .value (.truth (← observe (·.kernel.pool?.isSome)))
  | .counts => do
    let p ← Op.pool
    let free ← Op.look p.freeFrames
    return .value (.numbers [p.total, p.reserved, free, ← Op.look p.allocatedFrames])
  | .allocate count name? => allocation (Op.allocate count) name?
  | .allocateCleared count name? => allocation (Op.allocateCleared count) name?
  | .free p => do
    let a ← physical p
    return .done (.number (← Op.free a))
  | .mustFree p => do
    let a ← physical p
    Op.freeOwned a
    return .value .nothing
  | .isAllocated p => do
    let a ← physical p
    let pool ← Op.pool
    return .value (.truth (← Op.look (pool.isAllocated · a)))
  | .runs => do
    let p ← Op.pool
    return .value (.pairs (← Op.look p.runs))
  | .allocatePages count name? => allocatePages count name?
  | .freePages p => do
    let a ← physical p
    Op.freeKernelPages (← Op.directMapped a)
    return .value .nothing
  | .fill p n v => do
    fill (← physical p) n v
    return .value .nothing
  | .poke p bytes => do
    poke (← physical p) bytes
    return .value .nothing
  | .peek p n => do
    let start ← physical p
    return .value (← peek start n)
  | .newWord name v => create name (FrameCell.new v) .word (·.frame)
  | .newHalves name factor offset =>
    create name (FrameCell.new (ramp factor offset)) .halves (·.frame)
  | .newNested name v => create name (nestedCell v) .nested (·.frame)
  | .getCell name index? => getCell name index?
  | .setCell name index? value? => setCell name index? value?
  | .showCell name => showCell name
  | .release name => releaseNamed name
  | .newTable name => create name PageTable.create .table (·.directory)
  | .openSlot name slot => do
    let t ← table name
    return .done (.truth (← t.openSlot slot))
  | .closeSlot name slot => do
    let t ← table name
    t.closeSlot slot
    return .value .nothing
  | .isOpen name slot => do
    let t ← table name
    return .value (.truth (← t.isOpen slot))
  | .mapPage name slot entry writable => do
    let t ← table name
    return .done (.number (← t.mapPage slot entry writable).bits.toNat)
  | .entry name address => do
    let a ← Address.ofNat address
    let t ← table name
    return .value (.entry (← t.entry a))
  | .translate name address => do translation name (← Address.ofNat address)
  | .writeProtect name address => do
    let a ← Address.ofNat address
    let t ← table name
    return .value (.truth (← t.writeProtect a))
  | .showTable name => do
    let t ← table name
    return .value (.table (← tableView t))
  | .copyTable name target => copyTable name target
  | .releaseTable name => releaseTable name
  | .newSpace name => create name AddressSpace.create .space (·.table.directory)
  | .define name start size permissions => do
    define name (← Address.ofNat start) size permissions
  | .beginLoad name => do
    let s ← space name
    keep name (.space s.beginLoad)
    return .value .nothing
  | .endLoad name => endLoad name
  | .defineStack name => do
    let s ← space name
    return .value (.number s.stackTop.val)
  | .copySpace name target => copySpace name target
  | .destroy name => destroySpace name
  | .activate name? => do
    let s? ← space? name?
    onMmu (AddressSpace.activate? s?)
    return .value .nothing
  | .deactivate name => do
    let s ← space name
    onMmu s.deactivate
    return .value .nothing
  | .regionAt name address => do shownRegion name (← Address.ofNat address)
  | .inStackWindow name address => do
    let a ← Address.ofNat address
    let s ← space name
    return .value (.truth (← s.inStackWindow a))
  | .showSpace name => do
    let s ← space name
    return .value (.space (← spaceView s))
  | .fault name? code address => do fault name? code (← Address.ofNat address)
  | .writeUser name address bytes => do
    let p ← userRange name (← Address.ofNat address) bytes.length
    Op.onRam fun ram => ram.storeBytes p.val bytes
    return .value .nothing
  | .readUser name address n => do
    let p ← userRange name (← Address.ofNat address) n
    return .value (.bytes (← Op.look (·.slice p.val n)))
  | .install page entry => do
    let installed := TlbEntry.forPage (← Address.ofNat page) ⟨entry⟩
    Op.record (.tlbInstalled installed)
    onMmu (·.install installed)
    return .value .nothing
  | .flush => do
    onMmu (·.flush)
    return .value .nothing
  | .probe address => do
    let a ← Address.ofNat address
    let tlb ← observe (·.mmu.tlb)
    return .value (.lookup (tlb.probe a) (tlb.translate a))
  | .tlbEntry slot => do
    let tlb ← observe (·.mmu.tlb)
    return .value (.tlbEntry (← tlb.entry slot))
  | .showTlb => return .value (.tlbSlots (← observe (·.mmu.tlb.occupied)))
  | .disableInterrupts => do
    let wasEnabled ← observe (·.mmu.interrupts.enabled)
    onMmu fun m => ⟨m.tlb, m.interrupts.disable.2⟩
    return .value (.truth wasEnabled)
  | .restoreInterrupts enabled => do
    onMmu fun m => ⟨m.tlb, m.interrupts.restore enabled⟩
    return .value .nothing

/-- Runs a command, unless the pool manages more RAM than there is and the command needs it. -/
def perform (c : Command) : Run Reply := do
  if (← observe overcommitted) && !c.needsPoolOnly then refuse (.badArgument "ram")
  runCommand c

/-- What became of a command: the machine goes on with a report, or has halted. -/
inductive Step where
  | report (report : Report) (after : Bench)
  | halted (cause : Halt)

/-- Runs one command on the bench. -/
def step (b : Bench) (c : Command) : Step :=
  let seen := b.kernel.log.size
  match (perform c).run b with
  | .done reply after | .refused reply after => .report (after.report reply seen) after
  | .halted cause => .halted cause

/-- Runs commands up to the first halt: the reports of those before it, and the halt if there was
one. -/
def run (b : Bench) : List Command → List Report × Option Halt
  | [] => ([], none)
  | c :: cs =>
    match b.step c with
    | .halted cause => ([], some cause)
    | .report report after =>
      let (reports, halt?) := after.run cs
      (report :: reports, halt?)

end Bench

end SoftPaging
