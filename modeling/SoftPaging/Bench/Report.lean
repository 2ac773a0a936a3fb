import SoftPaging.Space.Basic

/-!
# Answers of the bench

A command is answered by a `Reply`: a value, the refusal of an operation, or the bench's own reason
for not carrying the command out. The state of the machine after the command goes with it into the
`Report`.
-/

namespace SoftPaging

/-- What is shown of a page table. -/
structure TableView where
  directory : PhysicalAddress
  tables : Nat
  resident : Nat
  mappings : List (VirtualAddress × PageEntry)
deriving Repr

/-- What is shown of an address space. -/
structure SpaceView where
  regions : List Region
  heapStart : VirtualAddress
  heapEnd : VirtualAddress
  stackTop : VirtualAddress
  table : TableView
deriving Repr

/-- The values that commands are answered with. -/
inductive Answer where
  | nothing
  | truth (b : Bool)
  | number (n : Nat)
  | numbers (ns : List Nat)
  | pairs (ps : List (Nat × Nat))
  | text (s : String)
  | bytes (bs : List UInt8)
  | entry (e : PageEntry)
  | region (r : Region)
  | table (t : TableView)
  | space (s : SpaceView)
  | tlbEntry (e : TlbEntry)
  | tlbSlots (es : List (Nat × TlbEntry))
  | lookup (slot? : Option Nat) (physical? : Option PhysicalAddress)
deriving Repr

/-- The answer to a command. -/
inductive Reply where
  /-- What a command that cannot be refused answers. -/
  | value (a : Answer)
  /-- What a command that can be refused answers when it is not. -/
  | done (a : Answer)
  /-- The operation was refused. -/
  | refused (cause : Refusal)
  /-- There is no such object or bound address. -/
  | noSuchName (name : String)
  /-- An object of the name lives already. -/
  | nameInUse (name : String)
  /-- No page is mapped at the address. -/
  | notResident (a : VirtualAddress)
  /-- An argument makes no sense for the command. -/
  | badArgument (argument : String)
deriving Repr

/-- A reply with the state of the machine after the command. -/
structure Report where
  reply : Reply
  /-- Free and allocated frames, once there is a pool. -/
  frames? : Option (Nat × Nat)
  validEntries : Nat
  interrupts : Interrupts
  /-- What the command wrote to the log. -/
  events : List Event

end SoftPaging
