import SoftPaging.Error

/-!
# Kinds and stages of a fault

A fault reaches the memory manager as a code from the trap frame. `FaultKind.ofCode` reads it, and
refuses a code that names no kind. Servicing a fault goes through four stages, which the log names.
-/

namespace SoftPaging

/-- The kinds of fault that the trap handler reports. -/
inductive FaultKind where
  /-- A load found no translation. -/
  | read
  /-- A store found no translation. -/
  | write
  /-- A store found a translation without write permission. -/
  | readOnly
deriving DecidableEq, Repr

namespace FaultKind

/-- The kind that a fault code names. -/
def ofCode (code : Nat) : Except Refusal FaultKind :=
  match code with
  | 0 => .ok read
  | 1 => .ok write
  | 2 => .ok readOnly
  | _ => .error .invalidFault

/-- The code of a kind. -/
def code : FaultKind → Nat
  | read => 0
  | write => 1
  | readOnly => 2

/-- The name of a kind, as the log spells it. -/
def name : FaultKind → String
  | read => "Read"
  | write => "Write"
  | readOnly => "ReadOnly"

end FaultKind

/-- The stages in which a fault is serviced. -/
inductive FaultStage where
  /-- Faults that can never be serviced are turned away. -/
  | kind
  /-- The address is looked up among the regions. -/
  | region
  /-- The page table is made to have an entry for the page. -/
  | mapping
  /-- The entry is written to the TLB. -/
  | refill
deriving DecidableEq, Repr

/-- The words for a stage. -/
def FaultStage.text : FaultStage → String
  | kind => "classify"
  | region => "locate region"
  | mapping => "ensure mapping"
  | refill => "install"

end SoftPaging
