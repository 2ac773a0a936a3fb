import Mathlib
import SoftPaging.Proofs.Session.Basic

/-!
# Scenes

A `Scene` is what is seen of a client's objects: of each cell its kind, and of each page table its
image. There are no frames in it, and no kernel. `Request.see` says what a request makes of a scene
when it is granted, and `Request.seeRefused` when it is refused.

A fault fills a page with zeros unless it was resident, a stored byte is there afterwards, a copy has
the image of its source, and a slot that is closed takes its pages along. Everything else leaves the
images as they are: loading, cells, frames, and every refusal.
-/

namespace SoftPaging

/-- What is seen of all objects, by their places. -/
abbrev Scene := List (Option Sight)

namespace Scene

/-- What is seen at a place. -/
def look (w : Scene) (i : Nat) : Option Sight := w[i]?.join

/-- The scene with what is seen at a place changed. -/
def change (w : Scene) (i : Nat) (f : Sight → Sight) : Scene :=
  match w.look i with
  | some x => w.set i (some (f x))
  | none => w

/-- The scene without what is at a place, and then changed, if what is there is of the right kind. -/
def consume (w : Scene) (i : Nat) (f : Sight → Option (Scene → Scene)) : Scene :=
  match (w.look i).bind f with
  | some g => g (w.set i none)
  | none => w

/-- The scene with one more object. -/
def keep (w : Scene) (x : Sight) : Scene := w ++ [some x]

theorem set_look {w : Scene} {i : Nat} {x : Sight} (h : w.look i = some x) :
    w.set i (some x) = w := by
  obtain ⟨hi, hx⟩ := List.getElem?_eq_some_iff.1 (Option.join_eq_some_iff.1 h)
  rw [← hx, List.set_getElem_self]

/-- Changing nothing changes nothing. -/
theorem change_of_fixed {w : Scene} {i : Nat} {f : Sight → Sight}
    (h : ∀ x, w.look i = some x → f x = x) : w.change i f = w := by
  unfold change
  cases hlook : w.look i with
  | none => rfl
  | some x =>
    change w.set i (some (f x)) = w
    rw [h x hlook, set_look hlook]

end Scene

/-- What becomes of a scene when a request is granted. -/
def Request.see (w : Scene) : Request → Scene
  | newCell kind d => if (d.value? kind).isSome then w.keep (.cell kind) else w
  | nest i => w.consume i fun
    | .cell kind => some (Scene.keep · (.cell (.nested kind)))
    | _ => none
  | setNested i inner =>
    match (w.look i).bind Sight.inner? with
    | some kind => w.consume inner fun
      | .cell kind' => if kind' = kind then some id else none
      | _ => none
    | none => w
  | newTable => w.keep (.table .blank)
  | closeSlot i slot => w.change i (.mapImage (·.closeSlot slot))
  | mapPage i slot entry _ => w.change i (.mapImage (·.fill slot entry))
  | store i a v => w.change i (.mapImage (·.store a v))
  | tearDown i => w.consume i fun
    | .table _ => some id
    | _ => none
  | newSpace => w.keep (.space .blank)
  | fault (some i) _ a =>
    w.change i (.mapSpace (·.fill a.directoryIndex.val a.tableIndex.val))
  | copySpace i =>
    match w.look i with
    | some (.space im) => w.keep (.space im)
    | _ => w
  | destroy i => w.consume i fun
    | .space _ => some id
    | _ => none
  | release i => w.consume i fun _ => some id
  | _ => w

/-- The cell that is moved into another leaves its place, if it is of the kind that is wanted. -/
theorem Request.see_setNested {w : Scene} {i : Nat} {kind : CellKind}
    (h : (w.look i).bind Sight.inner? = some kind) (inner : Nat) :
    see w (.setNested i inner) = w.consume inner fun
      | .cell kind' => if kind' = kind then some id else none
      | _ => none := by
  simp only [see, h]

/-- What becomes of a scene when a request is refused: a cell that found no frame around it is gone,
and that is all. -/
def Request.seeRefused (w : Scene) : Request → Scene
  | nest i => w.consume i fun
    | .cell _ => some id
    | _ => none
  | _ => w

namespace Session

/-- What is seen of the objects of a session. -/
def scene (s : Session) : Scene := s.objects.map fun o? => o?.map (·.sightIn s.kernel.ram)

theorem look_scene (s : Session) (i : Nat) :
    s.scene.look i = (s.object i).map (·.sightIn s.kernel.ram) := by
  unfold Scene.look scene object
  rw [List.getElem?_map]
  cases s.objects[i]? with
  | none => rfl
  | some o? => rfl

/-- The scenes that a client gets to see, from the requests and whether they were granted. -/
def sceneAfter (w : Scene) (trace : List (Request × Bool)) : Scene :=
  trace.foldl (fun w step => if step.2 then step.1.see w else step.1.seeRefused w) w

end Session

/-- The request leaves the images of objects alone but for what `see` says: it does not write to a
frame of an object by its physical address, and does not copy from one table into another, which may
break off in the middle. -/
def Request.Discreet (s : Session) : Request → Prop
  | poke a _ => a.number.val ∉ framesOf s.objectBlocks
  | copyTable _ _ => False
  | _ => True

end SoftPaging
