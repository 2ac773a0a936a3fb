import SoftPaging.Paging.Table

/-!
# Copying page tables

`PageTable.copyTo` gives a second page table every mapping of the first, each page in a fresh frame
of its own with the same bytes and the same flags. It walks the slots from the lowest to the highest
and each second-level table the same way, so a page is copied to the position it came from.

Each step is an operation of its own: a page (`copyPage`), an entry (`copyEntry`), a slot
(`copySlot`). When memory runs out the copy stops there, and the second table keeps what it has got
so far.
-/

namespace SoftPaging

namespace PageTable

/-- Maps the page at a position to a fresh frame with the bytes of `source`. Halts when the slot has
no second-level table or the entry is valid already. -/
def copyPage (t : PageTable) (slot : Fin directorySlots) (i : Fin tableEntries)
    (source : PhysicalAddress) (flags : PageFlags) : Op Unit := do
  match ← t.slot slot with
  | none => Transition.halt (.slotEmpty slot.val)
  | some leaf =>
    if (← leaf.entry i).isValid then Transition.halt .copyTargetMapped
    let frame ← Op.allocate 1
    Op.reachFrame source
    Op.reachFrame frame
    Op.onRam fun ram => ram.copy source.val frame.val pageSize
    leaf.setEntry i (← PageEntry.map frame flags)

/-- Copies the page behind an entry of a second-level table to the same position of `target`, if the
entry maps one. -/
def copyEntry (leaf : EntryTable) (target : PageTable) (slot : Fin directorySlots)
    (i : Fin tableEntries) : Op Unit := do
  let e ← leaf.entry i
  match e.frame? with
  | some frame => target.copyPage slot i frame e.flags
  | none => return ()

/-- Copies what a slot holds to the same slot of `target`. -/
def copySlot (t target : PageTable) (slot : Fin directorySlots) : Op Unit := do
  match ← t.slot slot with
  | none => return ()
  | some leaf =>
    discard <| target.openSlot slot.val
    Op.reachFrame leaf.frame
    (List.finRange tableEntries).forM (copyEntry leaf target slot)

/-- Copies every mapping to `target`, each page into a fresh frame, with the flags it has. When
memory runs out, `target` keeps what was copied up to then. -/
def copyTo (t target : PageTable) : Op Unit :=
  (List.finRange directorySlots).forM (t.copySlot target)

end PageTable

end SoftPaging
