import SoftPaging.Space.Basic

/-!
# Servicing faults

A fault is serviced in four stages. It is classified: codes that name no kind, and stores to
read-only pages, are turned away. Its address is located: it must lie in a region or in the stack
window, and that decides whether its page is writable. The page table is made to map the page, with
a second-level table and a frame of zeros where they are missing. The entry is installed in the TLB.

A fault that is refused leaves the page table as it was: a second-level table made for it is given
back when there is no frame for the page. The MMU is an argument and a result, so a refused fault
cannot have changed it.
-/

namespace SoftPaging

open Transition (refuse)

namespace FaultKind

/-- The kind of a fault that may be serviced. A store to a page without write permission never is. -/
def serviceable (code : Nat) : Op FaultKind :=
  match ofCode code with
  | .ok readOnly => refuse .permissionViolation
  | .ok kind => return kind
  | .error cause => refuse cause

end FaultKind

namespace AddressSpace

/-- Whether the page of an address should be writable; refused for address zero and for an address
outside every region and the stack window. -/
def writableAt (s : AddressSpace) (a : VirtualAddress) : Op Bool := do
  if a.val = 0 then refuse .badAddress
  match ← s.regionAt a with
  | some region => return region.permissions.writable
  | none => if ← s.inStackWindow a then return true else refuse .badAddress

end AddressSpace

namespace PageTable

/-- Makes sure that the page of an address is mapped, and answers its entry. A second-level table made
on the way is given back when the page itself is refused. -/
def mapOnDemand (t : PageTable) (a : VirtualAddress) (writable : Bool) : Op PageEntry := do
  let slot := a.directoryIndex.val
  let created ← t.openSlot slot
  (t.mapPage slot a.tableIndex.val writable).onRefusal fun _ => do
    if created then t.closeSlot slot

end PageTable

/-- Runs one stage of a fault; a refusal is written to the log with the stage it came from. -/
def Op.inStage {α : Type} (code : Nat) (a : VirtualAddress) (stage : FaultStage) (x : Op α) : Op α :=
  x.onRefusal fun cause => Op.record (.faultRejected code a stage cause)

/-- Services the fault with the given code at an address of a thread's address space, if it has one,
and answers the MMU with the page installed. -/
def serviceFault {τ : Type} [TlbDevice τ] (space? : Option AddressSpace) (code : Nat)
    (a : VirtualAddress) (mmu : Mmu τ) : Op (Mmu τ) := do
  Op.record (.faultRaised code a)
  let kind ← Op.inStage code a .kind (FaultKind.serviceable code)
  Op.record (.faultStage kind a .region)
  let (s, writable) ← Op.inStage code a .region do
    match space? with
    | none => refuse .badAddress
    | some s => return (s, ← s.writableAt a)
  Op.record (.faultStage kind a .mapping)
  let entry ← Op.inStage code a .mapping (s.table.mapOnDemand a writable)
  Op.record (.faultStage kind a .refill)
  let installed := TlbEntry.forPage a entry
  Op.record (.tlbInstalled installed)
  return mmu.install installed

end SoftPaging
