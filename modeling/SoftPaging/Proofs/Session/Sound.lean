import Mathlib
import SoftPaging.Proofs.Session.Scene

/-!
# Sound sessions

A session is sound when the blocks of its client and of all objects are just those that the pool has
handed out, and each object lies in RAM as it should. An operation on one object is an operation on
blocks that were taken out of the books, next to those that stay; so the books are kept by taking an
object out (`Keeps.take`), running the operation beside the rest (`Keeps.withKernel`) and entering
what there is afterwards (`Keeps.put`, `Keeps.keep`).
-/

namespace SoftPaging

open Outcome

namespace Session

variable {p : FramePool} {own own' : List Block} {s : Session} {o o' : Object} {i : Nat}
  {k' : Kernel} {t : PageTable} {im : Image}

/-- The pool has handed out what the session owns and besides it the blocks `own`, and the objects
are good. -/
structure Keeps (p : FramePool) (own : List Block) (s : Session) : Prop where
  holds : s.kernel.Holds p (own ++ s.owned)
  good : ∀ o, some o ∈ s.objects → o.Good s.kernel.ram

/-- The pool has handed out just what the session owns, and the objects are good. -/
abbrev Sound (p : FramePool) (s : Session) : Prop := s.Keeps p []

/-- The session is sound and its objects are seen as the scene says. -/
structure Shows (p : FramePool) (w : Scene) (s : Session) : Prop where
  sound : s.Sound p
  scene_eq : s.scene = w

theorem object_eq_some : s.object i = some o ↔ s.objects[i]? = some (some o) :=
  Option.join_eq_some_iff

/-- There is an address space at a place, or there is not. -/
theorem space_cases (s : Session) (i : Nat) :
    (∃ sp, s.object i = some (.space sp)) ∨ ∀ sp, s.object i ≠ some (.space sp) := by
  by_cases h : ∃ sp, s.object i = some (.space sp)
  · exact .inl h
  · exact .inr fun sp ho => h ⟨sp, ho⟩

theorem object_congr {s' : Session} (h : s'.objects = s.objects) (i : Nat) :
    s'.object i = s.object i := by
  unfold object
  rw [h]

theorem put_object (ho : s.object i = some o) : s.put i (some o) = s := by
  obtain ⟨hi, hget⟩ := List.getElem?_eq_some_iff.1 (object_eq_some.1 ho)
  unfold put
  rw [← hget, List.set_getElem_self]

@[simp] theorem kernel_put (s : Session) (i : Nat) (o? : Option Object) :
    (s.put i o?).kernel = s.kernel := rfl

theorem object_put_of_ne {j : Nat} {o? : Option Object} (hne : j ≠ i) :
    (s.put j o?).object i = s.object i := by
  unfold object put
  rw [List.getElem?_set_ne hne]

theorem mem_objectBlocks {f : Nat} :
    f ∈ framesOf s.objectBlocks ↔
      ∃ o, some o ∈ s.objects ∧ f ∈ framesOf (o.blocksIn s.kernel.ram) := by
  constructor
  · rintro ⟨b, hb, hf⟩
    obtain ⟨o?, ho, hb⟩ := List.mem_flatMap.1 hb
    cases o? with
    | none => cases hb
    | some o => exact ⟨o, ho, b, hb, hf⟩
  · rintro ⟨o, ho, b, hb, hf⟩
    exact ⟨b, List.mem_flatMap.2 ⟨some o, ho, hb⟩, hf⟩

theorem skeleton_subset (s : Session) : s.skeleton ⊆ framesOf s.objectBlocks := by
  rintro f ⟨o, ho, hf⟩
  exact mem_objectBlocks.2 ⟨o, ho, o.skeleton_subset _ hf⟩

/-! ## Running beside the objects -/

theorem Keeps.object_congr (h : s.Keeps p own)
    (hsame : ∀ f ∈ s.skeleton, s.kernel.ram.SameFrame k'.ram f) (ho : some o ∈ s.objects) :
    o.blocksIn k'.ram = o.blocksIn s.kernel.ram ∧
      o.skeletonIn k'.ram = o.skeletonIn s.kernel.ram ∧ o.Good k'.ram :=
  Object.congr (fun f hf => hsame f ⟨o, ho, hf⟩) (h.good o ho)

theorem Keeps.objectBlocks_withKernel (h : s.Keeps p own)
    (hsame : ∀ f ∈ s.skeleton, s.kernel.ram.SameFrame k'.ram f) :
    (s.withKernel k').objectBlocks = s.objectBlocks := by
  refine List.flatMap_congr fun o? ho => ?_
  cases o? with
  | none => rfl
  | some o => exact (h.object_congr hsame ho).1

/-- When the skeletons are the same, the objects are what they were and own what they did. -/
theorem Keeps.of_skeleton (h : s.Keeps p own)
    (hsame : ∀ f ∈ s.skeleton, s.kernel.ram.SameFrame k'.ram f)
    (hk : k'.Holds p (own' ++ s.owned)) : (s.withKernel k').Keeps p own' := by
  constructor
  · have howned : (s.withKernel k').owned = s.owned :=
      congrArg (s.blocks ++ ·) (h.objectBlocks_withKernel hsame)
    rw [howned]
    exact hk
  · exact fun o ho => (h.object_congr hsame ho).2.2

theorem scene_withKernel (h : s.Keeps p own) (hsame : s.kernel.ram.SameBlocks k'.ram s.objectBlocks) :
    (s.withKernel k').scene = s.scene := by
  refine List.map_congr_left fun o? ho => ?_
  cases o? with
  | none => rw [Option.map_none, Option.map_none]
  | some o =>
    refine congrArg some (Object.sightIn_congr (fun f hf => hsame f ?_) (h.good o ho))
    exact mem_objectBlocks.2 ⟨o, ho, hf⟩

theorem mem_owned_of_object {f : Nat} (hf : f ∈ framesOf s.objectBlocks) : f ∈ framesOf s.owned :=
  mem_framesOf_append.2 (.inr hf)

theorem mem_objectBlocks_of_mem (ho : s.object i = some o) {f : Nat}
    (hf : f ∈ framesOf (o.blocksIn s.kernel.ram)) : f ∈ framesOf s.objectBlocks :=
  mem_objectBlocks.2 ⟨o, List.mem_of_getElem? (object_eq_some.1 ho), hf⟩

theorem mem_owned_of_mem (ho : s.object i = some o) {f : Nat}
    (hf : f ∈ framesOf (o.blocksIn s.kernel.ram)) : f ∈ framesOf s.owned :=
  mem_owned_of_object (mem_objectBlocks_of_mem ho hf)

theorem Keeps.withKernel (h : s.Keeps p own) (hk : k'.Holds p (own' ++ s.owned))
    (hsame : s.kernel.ram.SameBlocks k'.ram s.owned) :
    (s.withKernel k').Keeps p own' ∧ (s.withKernel k').scene = s.scene :=
  ⟨h.of_skeleton (fun f hf => hsame f (mem_owned_of_object (s.skeleton_subset hf))) hk,
    scene_withKernel h fun f hf => hsame f (mem_owned_of_object hf)⟩

/-! ## Taking objects out of the books -/

theorem flatMap_set_perm {α β : Type} {f : Option α → List β} (hnone : f none = []) (o? : Option α) :
    ∀ {l : List (Option α)} {i : Nat}, i < l.length →
      ((l.set i o?).flatMap f).Perm (f o? ++ (l.set i none).flatMap f)
  | x :: l, 0, _ => by
    rw [List.set_cons_zero, List.set_cons_zero, List.flatMap_cons, List.flatMap_cons, hnone]
    exact .rfl
  | x :: l, i + 1, hi => by
    have hrest := flatMap_set_perm hnone o? (Nat.lt_of_succ_lt_succ hi)
    rw [List.set_cons_succ, List.set_cons_succ, List.flatMap_cons, List.flatMap_cons]
    exact (hrest.append_left (f x)).trans (List.perm_append_comm_assoc _ _ _)

theorem owned_put_perm (hi : i < s.objects.length) (o : Object) :
    (s.put i (some o)).owned.Perm (o.blocksIn s.kernel.ram ++ (s.put i none).owned) := by
  have hobjects : (s.put i (some o)).objectBlocks.Perm
      (o.blocksIn s.kernel.ram ++ (s.put i none).objectBlocks) :=
    flatMap_set_perm (f := blocksAt s.kernel.ram) rfl (some o) hi
  exact (hobjects.append_left s.blocks).trans (List.perm_append_comm_assoc _ _ _)

/-- What an object owns stands first among all that is owned. -/
theorem owned_object_perm (ho : s.object i = some o) :
    (o.blocksIn s.kernel.ram ++ (s.put i none).owned).Perm s.owned := by
  obtain ⟨hi, -⟩ := List.getElem?_eq_some_iff.1 (object_eq_some.1 ho)
  have hperm := owned_put_perm hi o
  rw [put_object ho] at hperm
  exact hperm.symm

theorem Keeps.take (h : s.Keeps p own) (ho : s.object i = some o) :
    (s.put i none).Keeps p (o.blocksIn s.kernel.ram ++ own) ∧ o.Good s.kernel.ram := by
  refine ⟨⟨h.holds.perm ?_, fun o' ho' => ?_⟩,
    h.good o (List.mem_of_getElem? (object_eq_some.1 ho))⟩
  · refine ((owned_object_perm ho).symm.append_left own).trans ?_
    rw [List.append_assoc]
    exact List.perm_append_comm_assoc _ _ _
  · rcases List.mem_or_eq_of_mem_set ho' with hmem | heq
    · exact h.good o' hmem
    · cases heq

theorem Keeps.put (h : (s.put i none).Keeps p (o.blocksIn s.kernel.ram ++ own))
    (hi : i < s.objects.length) (hgood : o.Good s.kernel.ram) :
    (s.put i (some o)).Keeps p own := by
  constructor
  · refine h.holds.perm (List.Perm.trans ?_ ((owned_put_perm hi o).symm.append_left own))
    rw [List.append_assoc]
    exact List.perm_append_comm_assoc _ _ _
  · intro o' ho'
    have hset : (s.put i (some o)).objects = (s.put i none).objects.set i (some o) :=
      (List.set_set ..).symm
    rw [hset] at ho'
    rcases List.mem_or_eq_of_mem_set ho' with hmem | heq
    · exact h.good o' hmem
    · cases heq
      exact hgood

theorem Keeps.keep (h : s.Keeps p (o.blocksIn s.kernel.ram ++ own)) (hgood : o.Good s.kernel.ram) :
    (s.keep o).Keeps p own := by
  have howned : (s.keep o).owned = s.owned ++ o.blocksIn s.kernel.ram := by
    unfold owned objectBlocks Session.keep
    rw [List.flatMap_append, List.flatMap_singleton, List.append_assoc]
    rfl
  constructor
  · rw [howned]
    refine h.holds.perm ?_
    rw [List.append_assoc]
    exact List.perm_append_comm.trans (by rw [List.append_assoc])
  · intro o' ho'
    rcases List.mem_append.1 ho' with hmem | hnew
    · exact h.good o' hmem
    · cases List.mem_singleton.1 hnew
      exact hgood

/-! ## What is seen afterwards -/

theorem scene_put (s : Session) (i : Nat) (o? : Option Object) :
    (s.put i o?).scene = s.scene.set i (o?.map (·.sightIn s.kernel.ram)) :=
  List.map_set

theorem scene_keep (s : Session) (o : Object) :
    (s.keep o).scene = s.scene.keep (o.sightIn s.kernel.ram) := by
  unfold scene keep
  exact List.map_append

/-- An object may be worked on, and changed, beside what stays as it is. -/
theorem Keeps.replace (h : s.Keeps p own) (ho : s.object i = some o)
    (hk : k'.Holds p (o'.blocksIn k'.ram ++ (s.put i none).owned))
    (hsame : s.kernel.ram.SameBlocks k'.ram (s.put i none).owned) (hgood : o'.Good k'.ram) :
    ((s.withKernel k').put i (some o')).Shows p (s.scene.set i (some (o'.sightIn k'.ram))) := by
  obtain ⟨hi, -⟩ := List.getElem?_eq_some_iff.1 (object_eq_some.1 ho)
  have hk' : k'.Holds p ((o'.blocksIn k'.ram ++ []) ++ (s.put i none).owned) := by
    rw [List.append_nil]
    exact hk
  have hbeside := (h.take ho).1.withKernel hk' hsame
  constructor
  · exact Keeps.put (s := s.withKernel k') hbeside.1 hi hgood
  · have hscene : ((s.withKernel k').put i none).scene = s.scene.set i none :=
      hbeside.2.trans (scene_put s i none)
    have hset : ((s.withKernel k').put i (some o')).scene =
        ((s.withKernel k').put i none).scene.set i (some (o'.sightIn k'.ram)) := by
      rw [scene_put, scene_put, List.set_set]
      rfl
    rw [hset, hscene, List.set_set]

/-- The page table of an object is held next to all that is owned besides. -/
theorem Sound.held (h : s.Sound p) (ho : s.object i = some o) (ht : o.table? = some t) :
    t.Held s.kernel p (t.mapIn s.kernel.ram) (s.put i none).owned := by
  obtain ⟨hbeside, hgood⟩ := h.take ho
  have hholds := hbeside.holds
  rw [List.append_nil, Object.blocksIn_of_table? ht] at hholds
  exact ⟨hgood.shows ht, hholds⟩

/-- What an operation makes of a page table, it makes of its object. -/
theorem Sound.becomes (h : s.Sound p) (ho : s.object i = some o) (ht : o'.table? = some t)
    (hfit : o'.Fit) (hb : t.Becomes p (s.put i none).owned s.kernel im k') :
    ((s.withKernel k').put i (some o')).Shows p (s.scene.set i (some (o'.sightOf im))) := by
  obtain ⟨m', hheld, hsame, himage⟩ := hb
  have hmap := hheld.shows.mapIn_eq
  have hholds : k'.Holds p (o'.blocksIn k'.ram ++ (s.put i none).owned) := by
    rw [Object.blocksIn_of_table? ht, hmap]
    exact hheld.holds
  have hgood : o'.Good k'.ram := Object.good_of_shows ht hfit (hmap.symm ▸ hheld.shows)
  have hreplace := h.replace ho hholds hsame hgood
  rwa [Object.sightIn_of_table? ht, hmap, himage] at hreplace

end Session

end SoftPaging
