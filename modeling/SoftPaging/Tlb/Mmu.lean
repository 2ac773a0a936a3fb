import SoftPaging.Tlb.Buffer

/-!
# The memory-management unit

The MMU owns the TLB and the interrupt line of one processor, and keeps interrupts off for as long
as it writes the TLB.

An `InterruptHold` switches interrupts off and remembers what they were; releasing it puts that
state back, so guards nest. The interrupt line counts how often it went from on to off through
`disable`, the number of its windows.

The device behind the MMU is any type with the two writes of `TlbDevice`. A write is told the state
of the interrupt line at that moment, which real slots ignore (`TlbBuffer`) and a recording device
keeps (`TlbRecorder`).
-/

namespace SoftPaging

/-! ## The interrupt line -/

/-- The interrupt control of a processor. -/
structure Interrupts where
  enabled : Bool
  /-- How often `disable` found interrupts enabled. The count has no bound here. The machine keeps it
  in a word and halts when one more does not fit, after 2^64 windows. -/
  windows : Nat
deriving DecidableEq, Repr

/-- Remembers the state of the interrupt line from before it was held. -/
structure InterruptHold where
  wasEnabled : Bool
deriving DecidableEq, Repr

namespace Interrupts

/-- The state in which a processor starts. -/
def initial : Interrupts :=
  ⟨true, 0⟩

/-- Switches interrupts off; answers whether they were on. -/
def disable (i : Interrupts) : Bool × Interrupts :=
  (i.enabled, ⟨false, if i.enabled then i.windows + 1 else i.windows⟩)

/-- Puts the interrupt line into the given state. -/
def restore (i : Interrupts) (enabled : Bool) : Interrupts :=
  ⟨enabled, i.windows⟩

/-- Switches interrupts off under a guard. -/
def hold (i : Interrupts) : InterruptHold × Interrupts :=
  let (wasEnabled, held) := i.disable
  (⟨wasEnabled⟩, held)

/-- Gives up a guard: interrupts return to what they were when it was taken. -/
def release (i : Interrupts) (guard : InterruptHold) : Interrupts :=
  i.restore guard.wasEnabled

end Interrupts

/-! ## TLB devices -/

/-- A TLB as the processor drives it. Each write is told whether interrupts are on. -/
class TlbDevice (τ : Type) where
  /-- Writes a slot. -/
  write : τ → Bool → Fin tlbSlots → TlbEntry → τ
  /-- Writes the slot that the device chooses. -/
  writeRandom : τ → Bool → TlbEntry → τ

instance : TlbDevice TlbBuffer where
  write b _ slot e := b.write slot e
  writeRandom b _ e := b.writeRandom e

/-- One write that a TLB device received. -/
structure TlbWrite where
  /-- The slot, or none for a write to the slot of the device's choice. -/
  slot? : Option (Fin tlbSlots)
  entry : TlbEntry
  /-- Whether interrupts were on at that moment. -/
  interruptsOn : Bool
deriving DecidableEq, Repr

/-- A device that does nothing but keep what it was asked to write, oldest first. -/
structure TlbRecorder where
  writes : Array TlbWrite
deriving DecidableEq, Repr

instance : TlbDevice TlbRecorder where
  write t on slot e := ⟨t.writes.push ⟨some slot, e, on⟩⟩
  writeRandom t on e := ⟨t.writes.push ⟨none, e, on⟩⟩

/-- Writes the invalid entry of its own into every slot, lowest first. -/
def TlbDevice.flush {τ : Type} [TlbDevice τ] (t : τ) (on : Bool) : τ :=
  (List.finRange tlbSlots).foldl (fun t slot => write t on slot (.invalid slot.val)) t

/-! ## The unit -/

/-- A memory-management unit: a TLB and the interrupt line that guards it. -/
structure Mmu (τ : Type) where
  tlb : τ
  interrupts : Interrupts
deriving DecidableEq, Repr

namespace Mmu

variable {τ : Type}

/-- Does something to the TLB with interrupts off, telling it the state of the line. -/
def guarded (m : Mmu τ) (body : τ → Bool → τ) : Mmu τ :=
  let (guard, held) := m.interrupts.hold
  ⟨body m.tlb held.enabled, held.release guard⟩

/-- Installs an entry in the slot of the TLB's choice. -/
def install [TlbDevice τ] (m : Mmu τ) (e : TlbEntry) : Mmu τ :=
  m.guarded fun tlb on => TlbDevice.writeRandom tlb on e

/-- Invalidates every slot. -/
def flush [TlbDevice τ] (m : Mmu τ) : Mmu τ :=
  m.guarded TlbDevice.flush

end Mmu

end SoftPaging
