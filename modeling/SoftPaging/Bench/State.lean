import SoftPaging.Bench.Command
import SoftPaging.Bench.Report
import SoftPaging.Space.Fault

/-!
# The bench

A `Bench` is one machine on which commands are run: the kernel's state, the MMU, the objects that
live under a name, and the addresses that allocations were bound to. An object's name is free again
once the object is released; a bound address stays bound until an allocation binds the name anew.

Commands run in `Bench.Run`, which ends early with a reply when there is nothing more to do.
-/

namespace SoftPaging

/-- The objects that can live on the bench. -/
inductive BenchObject where
  | word (cell : FrameCell UInt32)
  | halves (cell : FrameCell Halves)
  | nested (cell : FrameCell (Option (FrameCell UInt8)))
  | table (table : PageTable)
  | space (space : AddressSpace)

/-- One machine and what lives on it. -/
structure Bench where
  kernel : Kernel
  mmu : Mmu TlbBuffer
  objects : List (String × BenchObject)
  bindings : List (String × UInt64)
  /-- The pool manages more RAM than there is. -/
  overcommitted : Bool

namespace Bench

/-- A machine on which nothing is installed yet. -/
def initial : Bench :=
  ⟨.bare, ⟨.empty, .initial⟩, [], [], false⟩

/-- Where the host puts emulated RAM: past every address of the machine, so that no address of the
host is mistaken for one of the machine. -/
def windowBase : UInt64 := 0x100000000

/-- Steps of a command: they change the bench, and may end the command with a reply. -/
abbrev Run := Transition Reply Bench

namespace Run

open Transition (refuse observe change)

/-- Does something to the kernel's state. When that is refused, the command ends there. -/
def op {α : Type} (x : Op α) : Run α :=
  fun ⟨kernel, mmu, objects, bindings, overcommitted⟩ =>
    match x.run kernel with
    | .done a after => .done a ⟨after, mmu, objects, bindings, overcommitted⟩
    | .refused cause after =>
      .refused (.refused cause) ⟨after, mmu, objects, bindings, overcommitted⟩
    | .halted cause => .halted cause

instance : MonadLift Op Run := ⟨op⟩

/-! ## Objects and bindings -/

/-- The object of the given name. -/
def object (name : String) : Run BenchObject := do
  match (← observe objects).lookup name with
  | some o => return o
  | none => refuse (.noSuchName name)

/-- Makes sure that no object has the name. -/
def requireUnused (name : String) : Run Unit := do
  if ((← observe objects).lookup name).isSome then refuse (.nameInUse name)

/-- Puts an object under a name, in the place of any other. -/
def keep (name : String) (o : BenchObject) : Run Unit :=
  change fun b => { b with objects := (name, o) :: b.objects.filter (·.1 != name) }

/-- Takes an object off the bench. -/
def forget (name : String) : Run Unit :=
  change fun b => { b with objects := b.objects.filter (·.1 != name) }

/-- The address space of the given name. -/
def space (name : String) : Run AddressSpace := do
  match ← object name with
  | .space s => return s
  | _ => refuse (.noSuchName name)

/-- The page table of the given name: a table, or the one of an address space. -/
def table (name : String) : Run PageTable := do
  match ← object name with
  | .table t => return t
  | .space s => return s.table
  | _ => refuse (.noSuchName name)

/-- The 64-bit position that a place stands for. -/
def position : Place → Run UInt64
  | .fixed n => return n.toUInt64
  | .bound name distance => do
    match (← observe bindings).lookup name with
    | some start => return start + UInt64.ofInt distance
    | none => refuse (.noSuchName name)

/-- The physical address that a place stands for. -/
def physical (p : Place) : Run PhysicalAddress := do
  Address.ofNat (← position p).toNat

/-- Binds a name, if one is given, to an address. -/
def bindName (name? : Option String) (a : PhysicalAddress) : Run Unit := do
  match name? with
  | some name =>
    change fun b =>
      { b with bindings := (name, a.val.toUInt64) :: b.bindings.filter (·.1 != name) }
  | none => return ()

/-- Changes the MMU. -/
def onMmu (f : Mmu TlbBuffer → Mmu TlbBuffer) : Run Unit :=
  change fun b => { b with mmu := f b.mmu }

end Run

/-! ## Reports -/

/-- The report of a command that was answered by `reply`, when the log had `seen` events before. -/
def report (b : Bench) (reply : Reply) (seen : Nat) : Report where
  reply := reply
  frames? := b.kernel.pool?.map fun p => (p.freeFrames b.kernel.ram, p.allocatedFrames b.kernel.ram)
  validEntries := b.mmu.tlb.validEntries
  interrupts := b.mmu.interrupts
  events := (b.kernel.log.extract seen b.kernel.log.size).toList

end Bench

end SoftPaging
