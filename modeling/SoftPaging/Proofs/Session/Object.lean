import Mathlib
import SoftPaging.Proofs.Cell.Operations
import SoftPaging.Proofs.Space.Cloning
import SoftPaging.Proofs.Space.Servicing

/-!
# Objects of a client

A client of the memory manager owns cells, page tables and address spaces. Cells are nested to any
depth: `CellKind` says what a cell holds, and each kind has its type of values.

An `Object` owns the frames `Object.blocksIn`. What it is, and what it owns, can be read off its
skeleton, the frames that hold cells or tables (`Object.congr`). The pages of a table are owned too,
but what they hold is up to the program.
-/

namespace SoftPaging

/-! ## Kinds of cell -/

/-- What a cell holds: a number, an array, or another cell, which may be missing. -/
inductive CellKind where
  | byte
  | word
  | halves
  | nested (inner : CellKind)
deriving DecidableEq

namespace CellKind

/-- The values of a kind. -/
def Value : CellKind → Type
  | byte => UInt8
  | word => UInt32
  | halves => Halves
  | nested inner => Option (FrameCell inner.Value)

/-- How the values of a kind lie in RAM. -/
instance stored : (kind : CellKind) → Stored kind.Value
  | byte => inferInstanceAs (Stored UInt8)
  | word => inferInstanceAs (Stored UInt32)
  | halves => inferInstanceAs (Stored Halves)
  | nested inner =>
    let _ := stored inner
    inferInstanceAs (Stored (Option (FrameCell inner.Value)))

/-- What the values of a kind own. -/
instance owning : (kind : CellKind) → Owning kind.Value
  | byte => inferInstanceAs (Owning UInt8)
  | word => inferInstanceAs (Owning UInt32)
  | halves => inferInstanceAs (Owning Halves)
  | nested inner =>
    let _ := owning inner
    inferInstanceAs (Owning (Option (FrameCell inner.Value)))

/-- A cell, as the value of one that holds it. -/
def wrap {kind : CellKind} (c : FrameCell kind.Value) : (nested kind).Value := some c

/-- What a value of a cell owns, it owns frame by frame. -/
theorem count_eq_one : ∀ {kind : CellKind} {v : kind.Value} {ram : Ram} {b : Block},
    b ∈ Owning.blocksIn ram v → b.count = 1 := by
  intro kind
  induction kind with
  | byte | word | halves => exact fun hb => absurd hb List.not_mem_nil
  | nested inner ih =>
    intro v ram b hb
    cases v with
    | none => exact absurd hb List.not_mem_nil
    | some c =>
      rcases List.mem_cons.1 hb with rfl | hvalue
      · rfl
      · exact ih hvalue

end CellKind

/-- A value that owns nothing. -/
inductive Datum where
  | byte (v : UInt8)
  | word (v : UInt32)
  | halves (v : Halves)
  /-- No cell. -/
  | missing

/-- The datum as a value of a kind, if it is one. -/
def Datum.value? : Datum → (kind : CellKind) → Option kind.Value
  | byte v, .byte => some v
  | word v, .word => some v
  | halves v, .halves => some v
  | missing, .nested _ => some none
  | _, _ => none

theorem Datum.owns_nothing {d : Datum} {kind : CellKind} {v : kind.Value}
    (h : d.value? kind = some v) (ram : Ram) :
    Owning.blocksIn ram v = [] ∧ Owning.Aligned ram v := by
  cases d <;> cases kind <;> cases h <;> exact ⟨rfl, trivial⟩

/-! ## Objects -/

/-- What a client can own besides frames. -/
inductive Object where
  | cell (kind : CellKind) (c : FrameCell kind.Value)
  | table (t : PageTable)
  | space (s : AddressSpace)

namespace Object

/-- The page table of an object: a table, or the one of an address space. -/
def table? : Object → Option PageTable
  | cell _ _ => none
  | table t => some t
  | space s => some s.table

/-- The object as a cell of a kind, if it is one. -/
def cell? : Object → (kind : CellKind) → Option (FrameCell kind.Value)
  | cell kind' c, kind => if kind' = kind then some ⟨c.frame⟩ else none
  | _, _ => none

/-- The object as a cell that may hold another one, with the kind of that. -/
def nested? : Object → Option (Σ kind : CellKind, FrameCell (CellKind.nested kind).Value)
  | cell (.nested kind) c => some ⟨kind, c⟩
  | _ => none

/-- Gives back what an object owns. -/
def release : Object → Op Unit
  | cell _ c => c.release
  | table t => t.release
  | space s => s.table.release

/-- The blocks that an object owns, as RAM shows them. -/
def blocksIn (ram : Ram) : Object → List Block
  | cell _ c => c.blocksIn ram
  | table t => t.blocks (t.mapIn ram)
  | space s => s.table.blocks (s.table.mapIn ram)

/-- The frames of an object that hold its cells or its tables. -/
def skeletonIn (ram : Ram) : Object → Set Nat
  | cell _ c => framesOf (c.blocksIn ram)
  | table t => t.skeleton (t.mapIn ram)
  | space s => s.table.skeleton (s.table.mapIn ram)

/-- The object lies in RAM as it should: the cells at the start of frames, the tables word for word
as the map that is read off them. -/
def Good (ram : Ram) : Object → Prop
  | cell _ c => c.Aligned ram
  | table t => t.Shows ram (t.mapIn ram)
  | space s => s.Sound ∧ s.table.Shows ram (s.table.mapIn ram)

variable {o : Object} {ram ram' : Ram} {t : PageTable} {kind : CellKind}

theorem cell?_eq_some {c : FrameCell kind.Value} (h : o.cell? kind = some c) : o = cell kind c := by
  cases o with
  | cell kind' c' =>
    change (if kind' = kind then some ⟨c'.frame⟩ else none) = some c at h
    by_cases hkind : kind' = kind
    · subst hkind
      rw [if_pos rfl] at h
      cases h
      rfl
    · rw [if_neg hkind] at h
      cases h
  | table t => cases h
  | space s => cases h

theorem nested?_eq_some {c : FrameCell (CellKind.nested kind).Value}
    (h : o.nested? = some ⟨kind, c⟩) : o = cell (.nested kind) c := by
  cases o with
  | cell kind' c' =>
    cases kind' with
    | nested kind' =>
      cases h
      rfl
    | byte => cases h
    | word => cases h
    | halves => cases h
  | table t => cases h
  | space s => cases h

theorem skeleton_subset (o : Object) (ram : Ram) : o.skeletonIn ram ⊆ framesOf (o.blocksIn ram) := by
  cases o with
  | cell kind c => exact subset_rfl
  | table t => exact t.skeleton_subset _
  | space s => exact s.table.skeleton_subset _

/-- The frames of an object were handed out one by one. -/
theorem count_eq_one {b : Block} (hb : b ∈ o.blocksIn ram) : b.count = 1 := by
  have htable {t : PageTable} (hb : b ∈ t.blocks (t.mapIn ram)) : b.count = 1 := by
    rcases List.mem_cons.1 hb with rfl | hmap
    · rfl
    · exact TableMap.count_eq_one hmap
  cases o with
  | cell kind c =>
    rcases List.mem_cons.1 hb with rfl | hvalue
    · rfl
    · exact CellKind.count_eq_one hvalue
  | table t => exact htable hb
  | space sp => exact htable hb

theorem blocksIn_of_table? (h : o.table? = some t) (ram : Ram) :
    o.blocksIn ram = t.blocks (t.mapIn ram) := by
  cases o <;> cases h <;> rfl

theorem skeletonIn_of_table? (h : o.table? = some t) (ram : Ram) :
    o.skeletonIn ram = t.skeleton (t.mapIn ram) := by
  cases o <;> cases h <;> rfl

theorem Good.shows (hgood : o.Good ram) (h : o.table? = some t) : t.Shows ram (t.mapIn ram) := by
  cases o with
  | cell kind c => cases h
  | table t' =>
    cases h
    exact hgood
  | space s =>
    cases h
    exact hgood.2

/-- The regions of the object, if it is an address space, are sound. -/
def Fit : Object → Prop
  | space s => s.Sound
  | _ => True

theorem Good.fit (h : o.Good ram) : o.Fit := by
  cases o with
  | cell kind c => trivial
  | table t => trivial
  | space s => exact h.1

theorem good_of_shows (ht : o.table? = some t) (hfit : o.Fit) (h : t.Shows ram (t.mapIn ram)) :
    o.Good ram := by
  cases o with
  | cell kind c => cases ht
  | table t' =>
    cases ht
    exact h
  | space s =>
    cases ht
    exact ⟨hfit, h⟩

/-- What an object is, and what it owns, can be read off its skeleton. -/
theorem congr (hsame : ∀ f ∈ o.skeletonIn ram, ram.SameFrame ram' f) (h : o.Good ram) :
    o.blocksIn ram' = o.blocksIn ram ∧ o.skeletonIn ram' = o.skeletonIn ram ∧ o.Good ram' := by
  cases o with
  | cell kind c =>
    obtain ⟨hblocks, haligned⟩ := FrameCell.congr hsame h
    exact ⟨hblocks, congrArg framesOf hblocks, haligned⟩
  | table t =>
    have hshows : t.Shows ram' (t.mapIn ram) := PageTable.Shows.congr h hsame
    have hmap := hshows.mapIn_eq
    rw [← hmap] at hshows
    exact ⟨congrArg t.blocks hmap, congrArg t.skeleton hmap, hshows⟩
  | space s =>
    have hshows : s.table.Shows ram' (s.table.mapIn ram) := PageTable.Shows.congr h.2 hsame
    have hmap := hshows.mapIn_eq
    rw [← hmap] at hshows
    exact ⟨congrArg s.table.blocks hmap, congrArg s.table.skeleton hmap, h.1, hshows⟩

end Object

/-! ## What is seen of an object -/

/-- What is seen of an object without its frames: the kind of a cell, the image of a page table. -/
inductive Sight where
  | cell (kind : CellKind)
  | table (im : Image)
  | space (im : Image)

namespace Sight

/-- The sight with its image changed. -/
def mapImage (f : Image → Image) : Sight → Sight
  | cell kind => cell kind
  | table im => table (f im)
  | space im => space (f im)

/-- The sight of an address space with its image changed. -/
def mapSpace (f : Image → Image) : Sight → Sight
  | cell kind => cell kind
  | table im => table im
  | space im => space (f im)

/-- The kind of cell that a cell may hold. -/
def inner? : Sight → Option CellKind
  | cell (.nested kind) => some kind
  | _ => none

/-- The image of a page table or an address space. -/
def image? : Sight → Option Image
  | cell _ => none
  | table im | space im => some im

end Sight

namespace Object

/-- What is seen of an object whose page table, if it has one, shows an image. -/
def sightOf (im : Image) : Object → Sight
  | cell kind _ => .cell kind
  | table _ => .table im
  | space _ => .space im

/-- What RAM shows of an object. -/
def sightIn (ram : Ram) : Object → Sight
  | cell kind _ => .cell kind
  | table t => .table ((t.mapIn ram).image ram)
  | space s => .space ((s.table.mapIn ram).image ram)

variable {o : Object} {ram ram' : Ram} {t : PageTable}

theorem sightIn_of_table? (h : o.table? = some t) (ram : Ram) :
    o.sightIn ram = o.sightOf ((t.mapIn ram).image ram) := by
  cases o <;> cases h <;> rfl

theorem inner?_sightIn (o : Object) (ram : Ram) :
    (o.sightIn ram).inner? = o.nested?.map Sigma.fst := by
  cases o with
  | cell kind c => cases kind <;> rfl
  | table t => rfl
  | space s => rfl

/-- The frames of an object determine what is seen of it. -/
theorem sightIn_congr (hsame : ram.SameBlocks ram' (o.blocksIn ram)) (h : o.Good ram) :
    o.sightIn ram' = o.sightIn ram := by
  have himage {t : PageTable} (hshows : t.Shows ram (t.mapIn ram))
      (hsame : ram.SameBlocks ram' (t.blocks (t.mapIn ram))) :
      (t.mapIn ram').image ram' = (t.mapIn ram).image ram := by
    have hshows' := hshows.congr fun f hf => hsame f (t.skeleton_subset _ hf)
    rw [hshows'.mapIn_eq]
    refine TableMap.image_congr (fun _ _ => rfl) fun i j pg hpg => hsame _ ?_
    exact t.page_mem_blocks hpg
  cases o with
  | cell kind c => rfl
  | table t => exact congrArg Sight.table (himage h hsame)
  | space s => exact congrArg Sight.space (himage h.2 hsame)

end Object

end SoftPaging
