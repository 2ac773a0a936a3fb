import SoftPaging.Address.DirectMap
import SoftPaging.Frame.Pool
import SoftPaging.Kernel.Log
import SoftPaging.Kernel.Transition

/-!
# The kernel's state

A `Kernel` is what the operations of the memory manager work on: RAM, the direct map onto it, the
frame pool, and the log. The direct map and the pool are installed once each. An operation is a
transition of the kernel that may be refused, an `Op`.

Every access to memory through the address of a frame goes through `Op.reachFrame` first, which halts
where the direct map does not reach.
-/

namespace SoftPaging

/-- The state of the memory manager. -/
structure Kernel where
  ram : Ram
  /-- How physical memory is reached, once installed. -/
  directMap? : Option DirectMap
  /-- The frame pool, once installed. -/
  pool? : Option FramePool
  /-- What has happened, oldest first. -/
  log : Array Event
deriving DecidableEq

namespace Kernel

/-- A machine without memory, where nothing is installed yet. -/
def bare : Kernel :=
  ⟨Ram.zeroed 0, none, none, #[]⟩

/-- The kernel with its RAM changed. -/
@[inline] def mapRam (k : Kernel) (f : Ram → Ram) : Kernel :=
  match k with
  | ⟨ram, directMap?, pool?, log⟩ => ⟨f ram, directMap?, pool?, log⟩

/-- The kernel with one more event in its log. -/
@[inline] def push (k : Kernel) (e : Event) : Kernel :=
  match k with
  | ⟨ram, directMap?, pool?, log⟩ => ⟨ram, directMap?, pool?, log.push e⟩

section

variable (k : Kernel) (f : Ram → Ram) (e : Event)

@[simp] theorem ram_mapRam : (k.mapRam f).ram = f k.ram := rfl

@[simp] theorem directMap?_mapRam : (k.mapRam f).directMap? = k.directMap? := rfl

@[simp] theorem pool?_mapRam : (k.mapRam f).pool? = k.pool? := rfl

@[simp] theorem log_mapRam : (k.mapRam f).log = k.log := rfl

@[simp] theorem ram_push : (k.push e).ram = k.ram := rfl

@[simp] theorem directMap?_push : (k.push e).directMap? = k.directMap? := rfl

@[simp] theorem pool?_push : (k.push e).pool? = k.pool? := rfl

@[simp] theorem log_push : (k.push e).log = k.log.push e := rfl

end

end Kernel

/-- An operation of the memory manager. -/
abbrev Op := Transition Refusal Kernel

namespace Op

open Transition (refuse halt observe change)

/-- Writes an event to the log. -/
def record (e : Event) : Op Unit :=
  change (·.push e)

/-- Changes RAM. -/
def onRam (f : Ram → Ram) : Op Unit :=
  change (·.mapRam f)

/-- What RAM shows through a view. -/
def look {α : Type} (view : Ram → α) : Op α :=
  observe fun k => view k.ram

/-- The direct map; halts when none was installed. -/
def directMap : Op DirectMap := do
  match ← observe Kernel.directMap? with
  | some m => return m
  | none => halt .directMapMissing

/-- The frame pool; halts when none was installed. -/
def pool : Op FramePool := do
  match ← observe Kernel.pool? with
  | some p => return p
  | none => halt .poolMissing

/-- The kernel address of a physical address. -/
def directMapped (p : PhysicalAddress) : Op KernelAddress := do
  (← directMap).reach p

/-- The physical address behind a kernel address. -/
def fromDirectMapped (v : KernelAddress) : Op PhysicalAddress := do
  (← directMap).reached v

/-- Makes sure that the memory at a physical address can be reached. -/
def reachFrame (p : PhysicalAddress) : Op Unit := do
  discard <| directMapped p

/-- Installs the direct map; halts when there is one already. -/
def setDirectMap (m : DirectMap) : Op Unit := do
  if ← observe (·.directMap?.isSome) then halt .directMapAlreadySet
  change fun ⟨ram, _, pool?, log⟩ => ⟨ram, some m, pool?, log⟩

/-- Installs emulated RAM of `size` zero bytes behind a window at `base`; halts when there is a direct
map already. -/
def installRam (base : UInt64) (size : Nat) : Op Unit := do
  setDirectMap (← DirectMap.emulated base size)
  onRam fun _ => Ram.zeroed size

/-- Installs the frame pool; halts when there is one already. -/
def setPool (p : FramePool) : Op Unit := do
  if ← observe (·.pool?.isSome) then halt .poolAlreadySet
  change fun ⟨ram, directMap?, _, log⟩ => ⟨ram, directMap?, some p, log⟩

/-! ## What they come to -/

@[simp] theorem run_record (e : Event) (k : Kernel) : (record e).run k = .done () (k.push e) := rfl

@[simp] theorem run_onRam (f : Ram → Ram) (k : Kernel) :
    (onRam f).run k = .done () (k.mapRam f) := rfl

@[simp] theorem run_look {α : Type} (view : Ram → α) (k : Kernel) :
    (look view).run k = .done (view k.ram) k := rfl

theorem run_pool {k : Kernel} {p : FramePool} (h : k.pool? = some p) :
    pool.run k = .done p k := by
  simp [pool, h]

theorem run_directMap {k : Kernel} {m : DirectMap} (h : k.directMap? = some m) :
    directMap.run k = .done m k := by
  simp [directMap, h]

end Op

end SoftPaging
