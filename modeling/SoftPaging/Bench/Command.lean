import SoftPaging.Space.Region

/-!
# Commands of the bench

The bench drives one machine by commands. A command names the objects it works on (address spaces,
page tables, cells) and may name an address that an earlier allocation was bound to, plus a signed
distance (`Place`). Numbers are given as they are: whether an address fits the machine is for the
bench to find out.
-/

namespace SoftPaging

/-- A 64-bit position, given outright or relative to an allocation that was bound to a name. -/
inductive Place where
  | fixed (position : Nat)
  | bound (name : String) (distance : Int)
deriving DecidableEq, Repr

/-- What the bench can be told to do. -/
inductive Command where
  /- The direct map. -/
  | installRam (size : Nat)
  | installSegment (offset : Nat)
  | hasDirectMap
  | kernelOf (physical : Place)
  | reach (physical : Place)
  | physicalOf (kernel : Nat)
  | reached (kernel : Nat)
  /- The frame pool. -/
  | bootPool (ram : Nat) (firstFree : Place)
  | setUpPool (ram : Nat) (firstFree : Place)
  | hasPool
  | counts
  | allocate (count : Nat) (bind? : Option String)
  | allocateCleared (count : Nat) (bind? : Option String)
  | free (frame : Place)
  | mustFree (frame : Place)
  | isAllocated (address : Place)
  | runs
  | allocatePages (count : Nat) (bind? : Option String)
  | freePages (physical : Place)
  /- RAM. -/
  | fill (start : Place) (length : Nat) (byte : UInt8)
  | poke (start : Place) (bytes : List UInt8)
  | peek (start : Place) (length : Nat)
  /- Cells. -/
  | newWord (name : String) (value : UInt32)
  | newHalves (name : String) (factor offset : Nat)
  | newNested (name : String) (value : UInt8)
  | getCell (name : String) (index? : Option Nat)
  | setCell (name : String) (index? value? : Option Nat)
  | showCell (name : String)
  | release (name : String)
  /- Page tables. -/
  | newTable (name : String)
  | openSlot (name : String) (slot : Nat)
  | closeSlot (name : String) (slot : Nat)
  | isOpen (name : String) (slot : Nat)
  | mapPage (name : String) (slot entry : Nat) (writable : Bool)
  | entry (name : String) (address : Nat)
  | translate (name : String) (address : Nat)
  | writeProtect (name : String) (address : Nat)
  | showTable (name : String)
  | copyTable (name target : String)
  | releaseTable (name : String)
  /- Address spaces. -/
  | newSpace (name : String)
  | define (name : String) (start size : Nat) (permissions : Permissions)
  | beginLoad (name : String)
  | endLoad (name : String)
  | defineStack (name : String)
  | copySpace (name target : String)
  | destroy (name : String)
  | activate (name? : Option String)
  | deactivate (name : String)
  | regionAt (name : String) (address : Nat)
  | inStackWindow (name : String) (address : Nat)
  | showSpace (name : String)
  | fault (name? : Option String) (code : Nat) (address : Nat)
  | writeUser (name : String) (address : Nat) (bytes : List UInt8)
  | readUser (name : String) (address : Nat) (length : Nat)
  /- The TLB and interrupts. -/
  | install (page : Nat) (entry : UInt32)
  | flush
  | probe (address : Nat)
  | tlbEntry (slot : Nat)
  | showTlb
  | disableInterrupts
  | restoreInterrupts (enabled : Bool)
deriving DecidableEq, Repr

/-- The commands that look at no more than the frame pool. They are all that the bench answers while
the pool manages more RAM than there is. -/
def Command.needsPoolOnly : Command → Bool
  | allocate .. | free .. | mustFree .. | isAllocated .. | counts | runs | hasPool => true
  | _ => false

end SoftPaging
