import SoftPaging.Paging.Copy
import SoftPaging.Tlb.Mmu

/-!
# Address spaces

An address space is one program's view of memory: the regions its loader defined, the bounds of its
heap, the top of its stack, and the page table with the pages that were faulted in so far.

Regions may overlap; the newest one that contains an address decides (`regionAt`). Below the stack
top, a window of `stackGrowthPages` pages needs no region. The TLB carries no tag for the space it
translates for, so a change of space invalidates all of it.
-/

namespace SoftPaging

/-- A program's view of memory. -/
structure AddressSpace where
  /-- The regions, in the order in which they were defined. -/
  regions : List Region
  heapStart : VirtualAddress
  heapEnd : VirtualAddress
  stackTop : VirtualAddress
  table : PageTable
deriving DecidableEq, Repr

namespace AddressSpace

/-- A new address space: no regions, no heap, an empty page table. -/
def create : Op AddressSpace := do
  let table ← PageTable.create
  Op.record (.spaceCreated table.directory)
  return ⟨[], 0, 0, ⟨userStackTop, by decide⟩, table⟩

/-! ## Regions -/

/-- The number `n`, if it fits in a word. -/
def word? (n : Nat) : Option Nat :=
  if n < wordLimit then some n else none

/-- Where a region of `size` bytes ends that starts `offset` bytes into the page at `base`, widened to
whole pages. There is no such place when it is not below `top`, or any step on the way to it leaves
the word. -/
def regionEnd? (base offset size top : Nat) : Option Nat := do
  let covered ← word? (size + offset)
  let whole ← word? ((covered + (pageSize - 1)) / pageSize * pageSize)
  let past ← word? (base + whole)
  if past < top then some past else none

/-- Defines a region of `size` bytes at `start`, widened to whole pages, and puts the heap right
behind it. Refused unless the region ends below the stack top. -/
def addRegion (s : AddressSpace) (start : VirtualAddress) (size : Nat)
    (permissions : Permissions) : Op AddressSpace := do
  let base ← start.alignDown pageSize
  match regionEnd? base.val start.pageOffset size s.stackTop.val with
  | none =>
    Op.record (.regionRejected start size s.stackTop)
    Transition.refuse .invalidRegion
  | some past =>
    let region ← Region.define base (← checkedSub past base.val) permissions
    Op.record (.regionDefined region)
    let heap ← Address.ofNat past
    return { s with regions := s.regions ++ [region], heapStart := heap, heapEnd := heap }

/-- The newest region that contains the address. -/
def regionAt (s : AddressSpace) (a : VirtualAddress) : Except Halt (Option Region) :=
  s.regions.reverse.findM? (·.contains a)

/-- Whether the address lies in the window below the stack top that needs no region. -/
def inStackWindow (s : AddressSpace) (a : VirtualAddress) : Except Halt Bool := do
  let floor ← checkedSub s.stackTop.val (stackGrowthPages * pageSize)
  return floor ≤ a.val && a.val < s.stackTop.val

/-! ## Loading -/

/-- Makes every region writable, so that the loader can fill it. -/
def beginLoad (s : AddressSpace) : AddressSpace :=
  { s with regions := s.regions.map Region.allowWrites }

/-- Whether a mapping is writable although the newest region that contains its page is not. -/
def isOverwritable (s : AddressSpace) (page : VirtualAddress) (e : PageEntry) :
    Except Halt Bool := do
  if e.isDirty then
    match ← s.regionAt page with
    | some region => return !region.permissions.writable
    | none => return false
  else return false

/-- Puts back the permissions of every region, takes write permission from the pages faulted in
meanwhile that should not have it, and invalidates the TLB. -/
def endLoad {τ : Type} [TlbDevice τ] (s : AddressSpace) (mmu : Mmu τ) :
    Op (AddressSpace × Mmu τ) := do
  let restored := { s with regions := s.regions.map Region.restore }
  let mapped ← restored.table.mappings
  let readOnly ← mapped.filterM fun (page, e) => restored.isOverwritable page e
  readOnly.forM fun (page, _) => discard <| restored.table.writeProtect page
  if !readOnly.isEmpty then
    Op.record (.pagesProtected readOnly.length)
  return (restored, mmu.flush)

/-! ## Activation -/

/-- Makes the TLB translate for this address space. -/
def activate {τ : Type} [TlbDevice τ] (_ : AddressSpace) (mmu : Mmu τ) : Mmu τ :=
  mmu.flush

/-- Stops the TLB from translating for this address space. -/
def deactivate {τ : Type} [TlbDevice τ] (_ : AddressSpace) (mmu : Mmu τ) : Mmu τ :=
  mmu.flush

/-- Makes the TLB translate for a thread's address space. A thread of the kernel has none, and leaves
the TLB as it is. -/
def activate? {τ : Type} [TlbDevice τ] (space : Option AddressSpace) (mmu : Mmu τ) : Mmu τ :=
  match space with
  | some s => s.activate mmu
  | none => mmu

/-! ## Tearing down and copying -/

/-- Gives back every frame of the address space. -/
def destroy (s : AddressSpace) : Op Unit := do
  Op.record (.spaceDestroyed s.regions.length (← s.table.residentPages))
  s.table.tearDown

/-- A copy of the address space with every resident page in a frame of its own. When memory runs out
on the way, all that was taken for the copy is given back. -/
def copy (s : AddressSpace) : Op AddressSpace := do
  let fresh ← create
  let copied := { s with table := fresh.table }
  (s.table.copyTo copied.table).onRefusal fun cause => do
    Op.record (.copyFailed (← copied.table.residentPages) (← s.table.residentPages) cause)
    copied.destroy
  Op.record (.spaceCopied copied.regions.length (← copied.table.residentPages))
  return copied

end AddressSpace

end SoftPaging
