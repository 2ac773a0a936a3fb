import Mathlib
import SoftPaging.Proofs.Session.Object

/-!
# Sessions of a client

A `Session` is a machine in use: the kernel, the MMU, the blocks of frames that its client was handed
out directly, and the client's objects. An object goes by its place in the list, which it keeps for
as long as it lives; when it is gone the place stays empty.

A `Request` is one thing the client may do, and `Session.perform` does it. It may be refused like any
operation of the kernel, and what it did up to then stays. A request about an object that is not
there, or not of the right kind, does nothing.

A client may do much that the manager cannot guard against. `Request.Permitted` rules out that it
gives back frames of its objects behind their backs, or writes to the frame records or into cells and
tables.
-/

namespace SoftPaging

open Transition (observe change)

/-- A machine and what its client has on it. -/
structure Session where
  kernel : Kernel
  mmu : Mmu TlbBuffer
  /-- The frames that were handed out to the client itself. -/
  blocks : List Block
  /-- The objects, those that are gone among them. -/
  objects : List (Option Object)

/-- What a client may do. Objects are named by their places. -/
inductive Request where
  -- frames
  | allocate (count : Nat)
  | allocateCleared (count : Nat)
  | allocatePages (count : Nat)
  | free (a : PhysicalAddress)
  | mustFree (a : PhysicalAddress)
  | freePages (v : KernelAddress)
  /-- Writes a byte to memory. -/
  | poke (a : PhysicalAddress) (v : UInt8)
  -- cells
  | newCell (kind : CellKind) (d : Datum)
  /-- Moves a cell into a new one. -/
  | nest (i : Nat)
  | setCell (i : Nat) (d : Datum)
  /-- Moves a cell into one that is there. -/
  | setNested (i inner : Nat)
  | setElement (i index : Nat) (w : UInt16)
  -- page tables, also those of address spaces
  | newTable
  | openSlot (i slot : Nat)
  | closeSlot (i slot : Nat)
  | mapPage (i slot entry : Nat) (writable : Bool)
  | writeProtect (i : Nat) (a : VirtualAddress)
  | copyTable (i target : Nat)
  /-- Writes a byte to the page of an address, if that is resident. -/
  | store (i : Nat) (a : VirtualAddress) (v : UInt8)
  | tearDown (i : Nat)
  -- address spaces
  | newSpace
  | addRegion (i : Nat) (start : VirtualAddress) (size : Nat) (permissions : Permissions)
  | beginLoad (i : Nat)
  | endLoad (i : Nat)
  | fault (i? : Option Nat) (code : Nat) (a : VirtualAddress)
  | copySpace (i : Nat)
  | destroy (i : Nat)
  -- all objects, and the MMU
  | release (i : Nat)
  /-- Does anything to the MMU: activates a space, installs an entry, holds interrupts. -/
  | drive (f : Mmu TlbBuffer → Mmu TlbBuffer)

namespace Session

/-- A step of a client. -/
abbrev Act := Transition Refusal Session

/-- The session with another kernel. -/
def withKernel (s : Session) (k : Kernel) : Session := { s with kernel := k }

/-- The object at a place. -/
def object (s : Session) (i : Nat) : Option Object := s.objects[i]?.join

/-- The session with another object, or none, at a place. -/
def put (s : Session) (i : Nat) (o? : Option Object) : Session :=
  { s with objects := s.objects.set i o? }

/-- The session with one more object. -/
def keep (s : Session) (o : Object) : Session := { s with objects := s.objects ++ [some o] }

/-! ## Doing what is asked -/

/-- Does something to the kernel. -/
def op {α : Type} (x : Op α) : Act α := fun s =>
  match x.run s.kernel with
  | .done a k => .done a (s.withKernel k)
  | .refused cause k => .refused cause (s.withKernel k)
  | .halted cause => .halted cause

/-- Makes an object. -/
def make {α : Type} (object : α → Object) (x : Op α) : Act Unit := do
  let made ← op x
  change (·.keep (object made))

/-- Notes a block that was handed out. -/
def lend (count : Nat) (start : PhysicalAddress) : Act Unit :=
  change fun s => { s with blocks := ⟨start.number.val, count⟩ :: s.blocks }

/-- Strikes out a block that was given back. -/
def giveBack (start : PhysicalAddress) : Act Unit :=
  change fun s => { s with blocks := s.blocks.eraseP (·.first = start.number.val) }

/-- Works on a page table. -/
def onTable (i : Nat) (f : PageTable → Op Unit) : Act Unit := do
  match (← observe (·.object i)).bind Object.table? with
  | some t => op (f t)
  | none => return ()

/-- Works on an address space and the MMU. -/
def onSpace (i : Nat)
    (f : AddressSpace → Mmu TlbBuffer → Op (AddressSpace × Mmu TlbBuffer)) : Act Unit := do
  match ← observe (·.object i) with
  | some (.space s) =>
    let (after, mmu) ← op (f s (← observe mmu))
    change fun s => { s.put i (some (.space after)) with mmu := mmu }
  | _ => return ()

/-- Takes an object of the right kind off the client and does something with it. -/
def consume (i : Nat) (x : Object → Option (Act Unit)) : Act Unit := do
  match (← observe (·.object i)).bind x with
  | some act =>
    change (·.put i none)
    act
  | none => return ()

/-- Writes a byte to the page of an address, if that is resident. -/
def storeAt (t : PageTable) (a : VirtualAddress) (v : UInt8) : Op Unit := do
  match ← t.translate a with
  | some p =>
    Op.reachFrame p
    Op.onRam (·.store p.val v)
  | none => return ()

/-- Does what is asked. -/
def perform : Request → Act Unit
  | .allocate count => do lend count (← op (Op.allocate count))
  | .allocateCleared count => do lend count (← op (Op.allocateCleared count))
  | .allocatePages count => do
    match ← op (Op.allocateKernelPages count) with
    | some v => lend count (← op (Op.fromDirectMapped v))
    | none => return ()
  | .free a => do
    discard <| op (Op.free a)
    giveBack a
  | .mustFree a => do
    op (Op.freeOwned a)
    giveBack a
  | .freePages v => do
    op (Op.freeKernelPages v)
    giveBack (← op (Op.fromDirectMapped v))
  | .poke a v => op do
    Op.reachFrame a
    Op.onRam (·.store a.val v)
  | .newCell kind d =>
    match d.value? kind with
    | some v => make (.cell kind) (FrameCell.new v)
    | none => return ()
  | .nest i => consume i fun
    | .cell kind c =>
      make (.cell (.nested kind)) (FrameCell.new (CellKind.wrap c))
    | _ => none
  | .setCell i d => do
    match ← observe (·.object i) with
    | some (.cell kind c) =>
      match d.value? kind with
      | some v => op (c.replace v)
      | none => return ()
    | _ => return ()
  | .setNested i inner => do
    match (← observe (·.object i)).bind Object.nested? with
    | some ⟨kind, c⟩ => consume inner fun o =>
        (o.cell? kind).map fun c' => op (c.replace (CellKind.wrap c'))
    | none => return ()
  | .setElement i index w => do
    match ← observe (·.object i) with
    | some (.cell .halves c) => op (FrameCell.setElement c index w)
    | _ => return ()
  | .newTable => make .table PageTable.create
  | .openSlot i slot => onTable i fun t => discard (t.openSlot slot)
  | .closeSlot i slot => onTable i (·.closeSlot slot)
  | .mapPage i slot entry writable => onTable i fun t => discard (t.mapPage slot entry writable)
  | .writeProtect i a => onTable i fun t => discard (t.writeProtect a)
  | .copyTable i target =>
    if i = target then return ()
    else do
      match (← observe (·.object i)).bind Object.table? with
      | some t => onTable target t.copyTo
      | none => return ()
  | .store i a v => onTable i (storeAt · a v)
  | .tearDown i => consume i fun
    | .table t => op t.tearDown
    | _ => none
  | .newSpace => make .space AddressSpace.create
  | .addRegion i start size permissions =>
    onSpace i fun s mmu => do return (← s.addRegion start size permissions, mmu)
  | .beginLoad i => onSpace i fun s mmu => return (s.beginLoad, mmu)
  | .endLoad i => onSpace i fun s mmu => s.endLoad mmu
  | .fault none code a => do
    let mmu ← op (serviceFault none code a (← observe mmu))
    change fun s => { s with mmu := mmu }
  | .fault (some i) code a =>
    onSpace i fun s mmu => do return (s, ← serviceFault (some s) code a mmu)
  | .copySpace i => do
    match ← observe (·.object i) with
    | some (.space s) => make .space s.copy
    | _ => return ()
  | .destroy i => consume i fun
    | .space s => op s.destroy
    | _ => none
  | .release i => consume i fun o => op o.release
  | .drive f => change fun s => { s with mmu := f s.mmu }

/-! ## What the client owns -/

/-- The blocks that one place owns. -/
def blocksAt (ram : Ram) : Option Object → List Block
  | some o => o.blocksIn ram
  | none => []

/-- The blocks that objects own. -/
def objectBlocks (s : Session) : List Block := s.objects.flatMap (blocksAt s.kernel.ram)

/-- All blocks that were handed out to the client or its objects. -/
def owned (s : Session) : List Block := s.blocks ++ s.objectBlocks

/-- The frames that hold cells or tables. -/
def skeleton (s : Session) : Set Nat :=
  {f | ∃ o, some o ∈ s.objects ∧ f ∈ o.skeletonIn s.kernel.ram}

end Session

/-! ## What a client may not do -/

namespace Request

/-- The client gives back only frames that no object owns, and writes neither to the frame records
nor to frames that hold cells or tables. An address inside a page may be given back wherever it
lies, for nothing starts there. -/
def Permitted (p : FramePool) (s : Session) : Request → Prop
  | free a | mustFree a => a.isPageAligned = true → a.number.val ∉ framesOf s.objectBlocks
  | freePages v => ∀ m a, s.kernel.directMap? = some m → m.reached v = .ok a →
      a.isPageAligned = true → a.number.val ∉ framesOf s.objectBlocks
  | poke a _ => ¬ p.IsRecord a.val ∧ a.number.val ∉ s.skeleton
  | _ => True

/-- The client gives back frames through a door that halts where it cannot. -/
def MustFree : Request → Prop
  | mustFree _ | freePages _ => True
  | _ => False

end Request

/-- What a client may have done: the requests, oldest first, each with whether it was granted, from a
session to another. Each was permitted by `P` at its time. -/
inductive Session.Runs (P : Session → Request → Prop) (s₀ : Session) :
    List (Request × Bool) → Session → Prop
  | start : Runs P s₀ [] s₀
  | granted {trace s r s'} (h : Runs P s₀ trace s) (hr : P s r)
      (hrun : (Session.perform r).run s = .done () s') : Runs P s₀ (trace ++ [(r, true)]) s'
  | refused {trace s r cause s'} (h : Runs P s₀ trace s) (hr : P s r)
      (hrun : (Session.perform r).run s = .refused cause s') : Runs P s₀ (trace ++ [(r, false)]) s'

/-- The machine was set up: emulated RAM of `size` bytes was installed, at least as much as the pool
manages, and the pool `p` over it. The client owns nothing yet. -/
structure Session.Booted (p : FramePool) (s : Session) : Prop where
  kernel_eq : ∃ base size ramSize firstFree k,
    (Op.installRam base size).run .bare = .done () k ∧
      (Op.bootPool ramSize firstFree).run k = .done p s.kernel ∧ min ramSize maxRam ≤ size
  blocks_eq : s.blocks = []
  objects_eq : s.objects = []

end SoftPaging
