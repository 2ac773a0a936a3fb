import SoftPaging.Word.Hex

/-!
# Refusals and halts

An operation that cannot do what it was asked answers in one of two ways.

* A `Refusal` is an ordinary answer: memory ran out, an address means nothing. The machine goes on,
  and the refusal carries the number that a system call reports.
* A `Halt` is the discovery that a caller broke a rule that the manager depends on: a frame freed
  twice through the unchecked door, an index past a table. The machine stops; nothing that happened
  in the halting operation can be observed afterwards.

Both are kept as causes. The words a console shows are chosen in one place each, `Refusal.message`
and `Halt.message`.
-/

namespace SoftPaging

/-! ## Refusals -/

/-- The reasons for which an operation may be refused. -/
inductive Refusal where
  /-- No free frame, or no run of free frames, was left. -/
  | outOfMemory
  /-- The address lies in no region and not in the stack window, or there is no address space. -/
  | badAddress
  /-- A store hit a page whose entry does not permit writes. -/
  | permissionViolation
  /-- The trap handler reported a kind of fault that does not exist. -/
  | invalidFault
  /-- A frame was given back while it was free. -/
  | doubleFree
  /-- A region does not fit at the place asked for. -/
  | invalidRegion
deriving DecidableEq, Repr

namespace Refusal

/-- All refusals, in the order of their definition. -/
def all : List Refusal :=
  [outOfMemory, badAddress, permissionViolation, invalidFault, doubleFree, invalidRegion]

/-- The name of the cause, as reports spell it. -/
def name : Refusal → String
  | outOfMemory => "OutOfMemory"
  | badAddress => "BadAddress"
  | permissionViolation => "PermissionViolation"
  | invalidFault => "InvalidFault"
  | doubleFree => "DoubleFree"
  | invalidRegion => "InvalidRegion"

/-- The refusal that a report calls by the given name. -/
def ofName? (name : String) : Option Refusal :=
  all.find? (·.name == name)

/-- The words shown for the cause. -/
def message : Refusal → String
  | outOfMemory => "out of memory"
  | badAddress => "bad address"
  | permissionViolation => "write to read-only page"
  | invalidFault => "invalid fault type"
  | doubleFree => "frame freed twice"
  | invalidRegion => "region does not fit below the stack"

/-- The error number a system call reports: 3 for lack of memory, 6 for a bad address, 8 for a bad
argument. -/
def errno : Refusal → Nat
  | outOfMemory => 3
  | badAddress => 6
  | permissionViolation => 6
  | invalidFault => 8
  | doubleFree => 8
  | invalidRegion => 3

end Refusal

/-! ## Halts -/

/-- The broken rules that stop the machine. -/
inductive Halt where
  /-- A machine address has at most 32 bits. -/
  | addressTooWide
  /-- An addition left the 64-bit range. -/
  | addOverflow
  /-- A subtraction went below zero. -/
  | subOverflow
  /-- A multiplication left the 64-bit range. -/
  | mulOverflow
  /-- Alignments are powers of two. -/
  | alignmentNotPowerOfTwo
  /-- An index must be less than the length of what it selects from. -/
  | indexOutOfBounds (length index : Nat)
  /-- Emulated RAM is a positive number of whole pages. -/
  | ramNotWholePages
  /-- Emulated RAM must fit the host's largest allocation. -/
  | ramTooLarge
  /-- A physical address must lie inside emulated RAM. -/
  | physicalOutOfBounds
  /-- A kernel address must lie inside the window onto emulated RAM. -/
  | foreignKernelAddress
  /-- Nothing was installed that reaches physical memory. -/
  | directMapMissing
  /-- The direct map is installed once. -/
  | directMapAlreadySet
  /-- No frame pool was installed. -/
  | poolMissing
  /-- The frame pool is installed once. -/
  | poolAlreadySet
  /-- The size of RAM is a whole number of pages. -/
  | ramSizeUnaligned
  /-- The first free address lies on a page boundary. -/
  | firstFreeUnaligned
  /-- The frame records left no frame to hand out. -/
  | recordsFillRam
  /-- A request names at least one frame. -/
  | zeroFrames
  /-- A frame that is handed out was free. -/
  | frameTaken
  /-- A frame was given back that the pool could not take. -/
  | freeRefused (address : Nat) (cause : Refusal)
  /-- Frame zero is never handed out. -/
  | frameZero
  /-- A page table entry names the start of a frame. -/
  | entryUnaligned
  /-- An entry was asked of a directory slot that has no second-level table. -/
  | slotEmpty (slot : Nat)
  /-- A copied page must land on an entry that is not in use. -/
  | copyTargetMapped
  /-- A region starts on a page boundary. -/
  | regionBaseUnaligned
  /-- A region is a whole number of pages. -/
  | regionSizeUnaligned
  /-- A directory index is less than the number of directory slots. -/
  | directoryIndexRange
  /-- A table index is less than the number of table entries. -/
  | tableIndexRange
  /-- A TLB slot is less than the number of TLB slots. -/
  | tlbSlotRange
deriving DecidableEq, Repr

/-- The words the console shows when the machine stops. -/
def Halt.message : Halt → String
  | addressTooWide => "address exceeds 32 bits"
  | addOverflow => "attempt to add with overflow"
  | subOverflow => "attempt to subtract with overflow"
  | mulOverflow => "attempt to multiply with overflow"
  | alignmentNotPowerOfTwo => "alignment must be a power of two"
  | indexOutOfBounds length index =>
    s!"index out of bounds: the len is {length} but the index is {index}"
  | ramNotWholePages => "emulated memory must be a non-zero number of pages"
  | ramTooLarge => "emulated memory size overflows a layout"
  | physicalOutOfBounds => "physical address out of bounds"
  | foreignKernelAddress => "pointer not within emulated memory"
  | directMapMissing =>
    "address translator not set; call AddressTranslator::set_current during initialization"
  | directMapAlreadySet => "address translator already set"
  | poolMissing => "frame allocator not set; call FrameAllocator::init during boot"
  | poolAlreadySet => "frame allocator already set"
  | ramSizeUnaligned => "RAM size must be page-aligned"
  | firstFreeUnaligned => "first free address must be page-aligned"
  | recordsFillRam => "frame table took up all of physical memory"
  | zeroFrames => "cannot allocate zero frames"
  | frameTaken => "claiming an allocated frame"
  | freeRefused address cause => s!"cannot free frame {hexWord address}: {cause.message}"
  | frameZero => "frame allocator handed out frame zero"
  | entryUnaligned => "physical address must be page-aligned"
  | slotEmpty slot => s!"directory slot {slot} has no second-level table"
  | copyTargetMapped => "copy target is already mapped"
  | regionBaseUnaligned => "region base must be page-aligned"
  | regionSizeUnaligned => "region size must be a whole number of pages"
  | directoryIndexRange => "directory index out of range"
  | tableIndexRange => "table index out of range"
  | tlbSlotRange => "tlb slot out of range"

end SoftPaging
