import SoftPaging.Frame.Cell
import SoftPaging.Paging.Layout

/-!
# Operations on page tables

Ownership follows the structure: a page table owns its directory, the directory its second-level
tables, and a second-level table the frame behind every valid entry it holds. Releasing the page
table gives all of it back (`PageTable.release`): for each slot in turn the pages, then the
second-level table, and the directory last.

Pages come in two steps. `PageTable.openSlot` makes sure that a slot has a second-level table, and
`PageTable.mapPage` that an entry maps a frame. Each leaves alone what is there already.
`PageTable.closeSlot` undoes the first, and gives back the pages with it.
-/

namespace SoftPaging

open Transition (halt)

/-! ## Second-level tables -/

namespace EntryTable

/-- A new second-level table, with every entry empty. -/
def create : Op EntryTable := do
  let frame ← Op.takeFrame
  Op.onRam fun ram => ram.fill frame.val pageSize 0
  Op.rejectFrameZero frame
  return ⟨frame⟩

/-- An entry of a second-level table. -/
def entry (t : EntryTable) (i : Fin tableEntries) : Op PageEntry := do
  Op.reachFrame t.frame
  Op.look (t.entryIn · i)

/-- Changes an entry of a second-level table. -/
def setEntry (t : EntryTable) (i : Fin tableEntries) (e : PageEntry) : Op Unit := do
  Op.reachFrame t.frame
  Op.onRam fun ram => t.setEntryIn ram i e

/-- Gives back the frame behind an entry, if it maps one, and empties the entry. -/
def releaseEntry (t : EntryTable) (i : Fin tableEntries) : Op Unit := do
  match (← t.entry i).frame? with
  | some frame =>
    Op.freeOwned frame
    t.setEntry i .empty
  | none => return ()

/-- Gives back every frame that a second-level table maps, lowest page first, then its own. -/
def release (t : EntryTable) : Op Unit := do
  Op.reachFrame t.frame
  (List.finRange tableEntries).forM t.releaseEntry
  Op.freeOwned t.frame

end EntryTable

/-! ## Page tables -/

namespace PageTable

/-- A new page table, with every slot empty. -/
def create : Op PageTable := do
  let frame ← Op.takeFrame
  Op.onRam fun ram => ram.fill frame.val pageSize 0
  Op.rejectFrameZero frame
  return ⟨frame⟩

/-- The second-level table in a slot. -/
def slot (t : PageTable) (i : Fin directorySlots) : Op (Option EntryTable) := do
  Op.reachFrame t.directory
  Op.look (t.slotIn · i)

/-- Changes a slot. -/
def setSlot (t : PageTable) (i : Fin directorySlots) (leaf? : Option EntryTable) : Op Unit := do
  Op.reachFrame t.directory
  Op.onRam fun ram => t.setSlotIn ram i leaf?

/-- A slot given by its number, with its second-level table; halts when there is no such slot. -/
def slotNumbered (t : PageTable) (slot : Nat) : Op (Fin directorySlots × Option EntryTable) := do
  Op.reachFrame t.directory
  let i ← checkedIndex directorySlots slot
  return (i, ← t.slot i)

/-- Makes sure that a slot has a second-level table; answers whether one was made for it. -/
def openSlot (t : PageTable) (slot : Nat) : Op Bool := do
  let (i, present?) ← t.slotNumbered slot
  if present?.isSome then return false
  let leaf ← EntryTable.create
  Op.record (.slotFilled slot leaf.frame)
  t.setSlot i (some leaf)
  return true

/-- Takes the second-level table out of a slot and gives back what it holds. -/
def closeSlot (t : PageTable) (slot : Nat) : Op Unit := do
  match ← t.slotNumbered slot with
  | (i, some leaf) =>
    t.setSlot i none
    Op.record (.slotReleased slot leaf.frame)
    leaf.release
  | (_, none) => return ()

/-- Makes sure that an entry maps a frame, and answers the entry. A new entry gets a frame of zeros
and is writable if asked for; one that is valid already is left as it is. Halts when the slot has no
second-level table. -/
def mapPage (t : PageTable) (slot entry : Nat) (writable : Bool) : Op PageEntry := do
  match ← t.slotNumbered slot with
  | (_, none) => halt (.slotEmpty slot)
  | (i, some leaf) =>
    Op.reachFrame leaf.frame
    let j ← checkedIndex tableEntries entry
    let old ← leaf.entry j
    if old.isValid then return old
    let frame ← Op.allocateCleared 1
    let new ← PageEntry.map frame (.mapped writable)
    leaf.setEntry j new
    Op.record (.pageMapped (pageAt i j) frame)
    return new

/-- Whether a slot has a second-level table. -/
def isOpen (t : PageTable) (slot : Nat) : Op Bool := do
  return (← t.slotNumbered slot).2.isSome

/-- The entry that covers an address, the empty one if there is no second-level table for it. -/
def entry (t : PageTable) (a : VirtualAddress) : Op PageEntry := do
  match ← t.slot a.directoryIndex with
  | some leaf => leaf.entry a.tableIndex
  | none => return .empty

/-- Takes write permission from the entry that covers an address; answers whether it had it. -/
def writeProtect (t : PageTable) (a : VirtualAddress) : Op Bool := do
  match ← t.slot a.directoryIndex with
  | none => return false
  | some leaf =>
    let old ← leaf.entry a.tableIndex
    if old.isDirty then
      leaf.setEntry a.tableIndex old.writeProtect
      return true
    else return false

/-- The physical address that a virtual address is translated to. -/
def translate (t : PageTable) (a : VirtualAddress) : Op (Option PhysicalAddress) := do
  return (← t.entry a).translate a

/-- The second-level tables, with their slots. -/
def leaves (t : PageTable) : Op (List (Fin directorySlots × EntryTable)) := do
  Op.reachFrame t.directory
  Op.look t.leavesIn

/-- The pages that the table maps, each with its entry, lowest first. -/
def mappings (t : PageTable) : Op (List (VirtualAddress × PageEntry)) := do
  (← t.leaves).forM fun (_, leaf) => Op.reachFrame leaf.frame
  Op.look t.mappingsIn

/-- The number of pages that are backed by a frame. -/
def residentPages (t : PageTable) : Op Nat := do
  return (← t.mappings).length

/-- The number of second-level tables. -/
def openSlots (t : PageTable) : Op Nat := do
  return (← t.leaves).length

/-! ## Giving back -/

/-- Gives back what a slot holds. -/
def releaseSlot (t : PageTable) (slot : Fin directorySlots) : Op Unit := do
  match ← t.slot slot with
  | some leaf => leaf.release
  | none => return ()

/-- Gives back everything the table holds: slot by slot, then the directory. -/
def release (t : PageTable) : Op Unit := do
  Op.reachFrame t.directory
  (List.finRange directorySlots).forM t.releaseSlot
  Op.freeOwned t.directory

/-- Gives back everything the table holds, and says so in the log. -/
def tearDown (t : PageTable) : Op Unit := do
  Op.record (.tableReleased (← t.openSlots) t.directory)
  t.release

end PageTable

end SoftPaging
