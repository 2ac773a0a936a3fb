import SoftPaging.Bench.State

/-!
# Commands on objects

What the commands on cells, page tables and address spaces do. Objects are made under a name that no
other object has (`Bench.create`). A command that uses an object looks it up first, and one that ends
an object takes it off the bench before its frames are given back.

The page table of an address space goes by the name of the space. It is lent for every use, but only
the space itself can be released.
-/

namespace SoftPaging

namespace Bench

open Run
open Transition (refuse observe)

/-- Puts a new object under an unused name and answers the frame it lives in. -/
def create {α : Type} (name : String) (x : Run α) (object : α → BenchObject)
    (frame : α → PhysicalAddress) : Run Reply := do
  requireUnused name
  let made ← x
  keep name (object made)
  return .done (.number (frame made).val)

/-- Gives back what an object owns. -/
def releaseObject : BenchObject → Op Unit
  | .word cell => cell.release
  | .halves cell => cell.release
  | .nested cell => cell.release
  | .table t => t.release
  | .space s => s.table.release

/-- Takes an object off the bench and gives back what it owns. -/
def releaseNamed (name : String) : Run Reply := do
  let o ← object name
  forget name
  releaseObject o
  return .value .nothing

/-! ## Cells -/

/-- The array whose element at position `i` is `i * factor + offset`, as far as it fits. -/
def ramp (factor offset : Nat) : Halves :=
  Vector.ofFn fun i => (i.val * factor + offset).toUInt16

/-- A cell in a cell. -/
def nestedCell (v : UInt8) : Op (FrameCell (Option (FrameCell UInt8))) := do
  let inner ← FrameCell.new v
  FrameCell.new (some inner)

/-- The value of a cell, or of an element of an array. -/
def getCell (name : String) (index? : Option Nat) : Run Reply := do
  match ← object name with
  | .word cell => return .value (.number (← cell.read).toNat)
  | .halves cell =>
    match index? with
    | some index => return .value (.number (← cell.element index).toNat)
    | none => refuse (.badArgument "index")
  | .nested cell =>
    match ← cell.read with
    | some inner => return .value (.numbers [inner.frame.val, (← inner.read).toNat])
    | none => return .value .nothing
  | _ => refuse (.noSuchName name)

/-- Stores a number in a cell or an element of an array; a cell that holds another one is emptied. -/
def setCell (name : String) (index? value? : Option Nat) : Run Reply := do
  match ← object name with
  | .word cell =>
    match value? with
    | some value =>
      if value < addressLimit then cell.replace value.toUInt32
      else refuse (.badArgument "value")
    | none => refuse (.badArgument "value")
  | .halves cell =>
    match index?, value? with
    | some index, some value => cell.setElement index value.toUInt16
    | none, _ => refuse (.badArgument "index")
    | _, none => refuse (.badArgument "value")
  | .nested cell => cell.replace none
  | _ => refuse (.noSuchName name)
  return .value .nothing

/-- The detailed text of what a cell in a cell holds. -/
def innerText : Option (FrameCell UInt8) → Op String
  | some inner => return s!"Some({← inner.detail fun v => pure (toString v.toNat)})"
  | none => return "None"

/-- The detailed text of a cell. Arrays have none. -/
def showCell (name : String) : Run Reply := do
  match ← object name with
  | .word cell => return .value (.text (← cell.detail fun v => pure (toString v.toNat)))
  | .nested cell => return .value (.text (← cell.detail innerText))
  | _ => refuse (.noSuchName name)

/-! ## Page tables -/

/-- What is shown of a page table. -/
def tableView (t : PageTable) : Op TableView := do
  return ⟨t.directory, ← t.openSlots, ← t.residentPages, ← t.mappings⟩

/-- The physical address that a page table translates an address to. -/
def translation (name : String) (a : VirtualAddress) : Run Reply := do
  match ← (← table name).translate a with
  | some p => return .value (.number p.val)
  | none => return .value .nothing

/-- Copies one page table into another. -/
def copyTable (name target : String) : Run Reply := do
  let source ← table name
  if name = target then refuse (.badArgument "to")
  source.copyTo (← table target)
  return .done .nothing

/-- Gives back a page table; the one of an address space is not taken from it. -/
def releaseTable (name : String) : Run Reply := do
  match ← object name with
  | .table t =>
    forget name
    t.tearDown
    return .value .nothing
  | _ => refuse (.noSuchName name)

/-! ## Address spaces -/

/-- The address space of a name, if there is a name. -/
def space? : Option String → Run (Option AddressSpace)
  | some name => return some (← space name)
  | none => return none

/-- Defines a region of an address space. -/
def define (name : String) (start : VirtualAddress) (size : Nat) (permissions : Permissions) :
    Run Reply := do
  let s ← space name
  keep name (.space (← s.addRegion start size permissions))
  return .done .nothing

/-- Ends the loading of an address space. -/
def endLoad (name : String) : Run Reply := do
  let s ← space name
  let (restored, mmu) ← s.endLoad (← observe mmu)
  onMmu fun _ => mmu
  keep name (.space restored)
  return .value .nothing

/-- Copies an address space to an unused name. -/
def copySpace (name target : String) : Run Reply := do
  let copied : Run AddressSpace := do (← space name).copy
  create target copied .space (·.table.directory)

/-- Takes an address space off the bench and gives back its frames. -/
def destroySpace (name : String) : Run Reply := do
  let s ← space name
  forget name
  s.destroy
  return .value .nothing

/-- The region of an address space that an address lies in. -/
def shownRegion (name : String) (a : VirtualAddress) : Run Reply := do
  match ← (← space name).regionAt a with
  | some region => return .value (.region region)
  | none => return .value .nothing

/-- What is shown of an address space. -/
def spaceView (s : AddressSpace) : Op SpaceView := do
  return ⟨s.regions, s.heapStart, s.heapEnd, s.stackTop, ← tableView s.table⟩

/-- Services a fault. -/
def fault (name? : Option String) (code : Nat) (a : VirtualAddress) : Run Reply := do
  let s? ← space? name?
  let after ← serviceFault s? code a (← observe mmu)
  onMmu fun _ => after
  return .done .nothing

/-- The physical address of `n` bytes of a page that is mapped. -/
def userRange (name : String) (a : VirtualAddress) (n : Nat) : Run PhysicalAddress := do
  if pageSize < a.pageOffset + n then refuse (.badArgument "addr")
  let t ← table name
  match ← t.translate a with
  | some p =>
    Op.reachFrame p
    return p
  | none => refuse (.notResident a)

end Bench

end SoftPaging
