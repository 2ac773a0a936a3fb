import SoftPaging.Paging.Entry
import SoftPaging.Space.FaultKind
import SoftPaging.Space.Region
import SoftPaging.Tlb.Entry

/-!
# The log

What the memory manager does is written to a log of events. An event is kept as what happened; its
severity and its words follow from it (`Event.severity`, `Event.text`).

The allocation and release events of the frame pool are the ones from which its state can be told
again: every change of the pool's records is one event with the frames it took or gave back.
-/

namespace SoftPaging

/-! ## Severities -/

/-- How much an event matters, most severe first. -/
inductive Severity where
  | warn
  | info
  | debug
  | trace
deriving DecidableEq, Repr

namespace Severity

/-- The rank of a severity, zero for the most severe. -/
def rank : Severity → Nat
  | warn => 0
  | info => 1
  | debug => 2
  | trace => 3

/-- Whether an event of severity `s` passes a log cut off at `threshold`. -/
def passes (s threshold : Severity) : Bool :=
  s.rank ≤ threshold.rank

/-- The word in front of a log line. -/
def label : Severity → String
  | warn => "WARN"
  | info => "INFO"
  | debug => "DEBUG"
  | trace => "TRACE"

end Severity

/-! ## Events -/

/-- What is written to the log. -/
inductive Event where
  /-- RAM beyond the managed size is left alone. -/
  | ramIgnored (bytes : Nat)
  /-- A frame pool was set up. -/
  | poolReady (total ramSize : Nat) (records : PhysicalAddress) (reserved : Nat)
  /-- No run of so many free frames was found. -/
  | noRun (count : Nat)
  /-- Frames were handed out. -/
  | allocated (count : Nat) (start : PhysicalAddress)
  /-- Frames were given back. -/
  | freed (count : Nat) (start : PhysicalAddress)
  /-- The kernel's own request for pages was refused. -/
  | kernelPagesRefused (count : Nat) (cause : Refusal)
  /-- A directory slot got a second-level table. -/
  | slotFilled (slot : Nat) (table : PhysicalAddress)
  /-- A directory slot gives up its second-level table. -/
  | slotReleased (slot : Nat) (table : PhysicalAddress)
  /-- A page was mapped to a fresh frame. -/
  | pageMapped (page : VirtualAddress) (frame : PhysicalAddress)
  /-- A page table is about to give back everything it holds. -/
  | tableReleased (tables : Nat) (directory : PhysicalAddress)
  /-- An address space came into being. -/
  | spaceCreated (directory : PhysicalAddress)
  /-- A region did not fit. -/
  | regionRejected (start : VirtualAddress) (size : Nat) (stackTop : VirtualAddress)
  /-- A region was defined. -/
  | regionDefined (region : Region)
  /-- Loaded pages lost write access. -/
  | pagesProtected (count : Nat)
  /-- A copy of an address space ran out of memory. -/
  | copyFailed (copied pages : Nat) (cause : Refusal)
  /-- An address space was copied. -/
  | spaceCopied (regions pages : Nat)
  /-- An address space is about to be torn down. -/
  | spaceDestroyed (regions pages : Nat)
  /-- A fault with the given code enters its first stage. -/
  | faultRaised (code : Nat) (address : VirtualAddress)
  /-- A fault of a known kind enters a later stage. -/
  | faultStage (kind : FaultKind) (address : VirtualAddress) (stage : FaultStage)
  /-- A fault was turned away. -/
  | faultRejected (code : Nat) (address : VirtualAddress) (stage : FaultStage) (cause : Refusal)
  /-- An entry is written to the TLB. -/
  | tlbInstalled (entry : TlbEntry)
deriving DecidableEq, Repr

namespace Event

/-- How much the event matters. -/
def severity : Event → Severity
  | ramIgnored .. | poolReady .. => .info
  | kernelPagesRefused .. | copyFailed .. | faultRejected .. => .warn
  | spaceCreated .. | regionRejected .. | regionDefined .. | pagesProtected .. | spaceCopied ..
  | spaceDestroyed .. => .debug
  | noRun .. | allocated .. | freed .. | slotFilled .. | slotReleased .. | pageMapped ..
  | tableReleased .. | faultRaised .. | faultStage .. | tlbInstalled .. => .trace

/-- The words of the event. -/
def text : Event → String
  | ramIgnored bytes =>
    let kib := bytes / 1024
    let limit := maxRam / 1048576
    s!"frame allocator: ignoring {kib} KiB of RAM above {limit} MiB"
  | poolReady total ramSize records reserved =>
    let kib := ramSize / 1024
    s!"frame allocator: {total} frames ({kib} KiB), table at {records.text}, " ++
      s!"{reserved} frames reserved"
  | noRun count => s!"frame allocator: no run of {count} free frames"
  | allocated count start => s!"frame allocator: allocated {count} frame(s) at {start.text}"
  | freed count start => s!"frame allocator: freed {count} frame(s) at {start.text}"
  | kernelPagesRefused count cause => s!"alloc_kpages({count}): {cause.message}"
  | slotFilled slot table => s!"page table: directory slot {slot} -> table at {table.text}"
  | slotReleased slot table =>
    s!"page table: releasing directory slot {slot} (table at {table.text})"
  | pageMapped page frame => s!"page table: mapped {page.text} -> {frame.text}"
  | tableReleased tables directory =>
    s!"page table: releasing {tables} tables (directory at {directory.text})"
  | spaceCreated directory => s!"address space: created (directory at {directory.text})"
  | regionRejected start size stackTop =>
    s!"address space: rejected region {start.text} + {hex size}, stack top is {stackTop.text}"
  | regionDefined region => s!"address space: defined {region.text}"
  | pagesProtected count => s!"address space: write-protected {count} loaded pages"
  | copyFailed copied pages cause =>
    s!"address space: copy failed after {copied} of {pages} pages: {cause.message}"
  | spaceCopied regions pages => s!"address space: copied {regions} regions, {pages} pages"
  | spaceDestroyed regions pages => s!"address space: destroying {regions} regions, {pages} pages"
  | faultRaised code address => s!"fault: {code} at {address.text}: {FaultStage.kind.text}"
  | faultStage kind address stage => s!"fault: {kind.name} at {address.text}: {stage.text}"
  | faultRejected code address stage cause =>
    s!"fault: {code} at {address.text} rejected in {stage.text}: {cause.message}"
  | tlbInstalled entry => s!"tlb: install {entry.hi.detail} -> {entry.lo.detail}"

/-- The line of the log that shows the event. -/
def line (e : Event) : String :=
  s!"{e.severity.label} {e.text}"

end Event

end SoftPaging
