import Mathlib
import SoftPaging.Proofs.Session.Cells
import SoftPaging.Proofs.Session.Frames
import SoftPaging.Proofs.Session.Tables

/-!
# One request

A request that is permitted keeps a session sound, granted or refused, and what is seen afterwards is
what `Request.see` and `Request.seeRefused` say (`Sound.perform_meets`). It does not halt over a frame
given back by an object; only the client itself can do that.
-/

namespace SoftPaging

open Outcome

namespace Session

variable {p : FramePool} {s s' : Session} {r : Request}

/-- The session is sound after a request, and seen as the scene says if the request was discreet. -/
structure Follows (p : FramePool) (r : Request) (s : Session) (w : Scene) (s' : Session) : Prop where
  sound : s'.Sound p
  scene_eq : r.Discreet s → s'.scene = w

theorem Shows.follows {w : Scene} (h : s'.Shows p w) : Follows p r s w s' :=
  ⟨h.sound, fun _ => h.scene_eq⟩

/-- What a request has to meet. -/
def Complies (p : FramePool) (r : Request) (s : Session) : Prop :=
  ((perform r).run s).Meets (fun _ s' => Follows p r s (r.see s.scene) s')
    (fun _ s' => Follows p r s (r.seeRefused s.scene) s')
    (fun cause => r.MustFree ∨ ¬ cause.FreeRefused)

theorem complies_of_shows
    (h : ((perform r).run s).Meets (fun _ s' => s'.Shows p (r.see s.scene))
      (fun _ s' => s'.Shows p (r.seeRefused s.scene)) (fun cause => ¬ cause.FreeRefused)) :
    s.Complies p r :=
  h.mono (fun _ _ hshows => hshows.follows) (fun _ _ hshows => hshows.follows) fun _ => .inr

/-- A request that does nothing. -/
theorem Sound.complies_of_idle (h : s.Sound p) (hrun : (perform r).run s = .done () s)
    (hsee : r.see s.scene = s.scene) : s.Complies p r := by
  refine complies_of_shows ?_
  rw [hrun]
  exact .done ⟨h, hsee.symm⟩

/-- A request that consumes an object of some kind, and does nothing when it is of another. -/
theorem Sound.complies_of_consume {i : Nat} {x : Object → Option (Act Unit)}
    {y : Sight → Option (Scene → Scene)} (h : s.Sound p)
    (hperform : (perform r).run s = (consume i x).run s)
    (hsee : r.see s.scene = s.scene.consume i y)
    (hagree : ∀ o, s.object i = some o →
      (x o = none ∧ y (o.sightIn s.kernel.ram) = none) ∨
      ∃ act f, x o = some act ∧ y (o.sightIn s.kernel.ram) = some f ∧ (act.run (s.put i none)).Meets
          (fun _ s' => s'.Shows p (f (s.scene.set i none)))
          (fun _ s' => s'.Shows p (r.seeRefused s.scene)) (fun cause => ¬ cause.FreeRefused)) :
    s.Complies p r := by
  have hlook := look_scene s i
  have hrun := hperform.trans (run_consume x)
  cases ho : s.object i with
  | none =>
    rw [ho] at hlook hrun
    refine h.complies_of_idle hrun ?_
    rw [hsee, Scene.consume, hlook]
    rfl
  | some o =>
    rw [ho] at hlook hrun
    rcases hagree o ho with ⟨hx, hy⟩ | ⟨act, f, hx, hf, hmeets⟩
    · rw [Option.bind_some, hx] at hrun
      refine h.complies_of_idle hrun ?_
      rw [hsee, Scene.consume, hlook, Option.map_some, Option.bind_some, hy]
    · rw [Option.bind_some, hx] at hrun
      refine complies_of_shows ?_
      rw [hrun, hsee, Scene.consume, hlook, Option.map_some, Option.bind_some, hf]
      exact hmeets

/-! ## Requests that consume an object -/

theorem Sound.complies_nest (h : s.Sound p) (i : Nat) : s.Complies p (.nest i) := by
  refine h.complies_of_consume rfl rfl fun o ho => ?_
  cases o with
  | table t => exact .inl ⟨rfl, rfl⟩
  | space sp => exact .inl ⟨rfl, rfl⟩
  | cell kind c =>
    have hlook : s.scene.look i = some (.cell kind) := by
      rw [look_scene, ho]
      rfl
    have hrefused : Request.seeRefused s.scene (.nest i) = s.scene.set i none := by
      simp only [Request.seeRefused, Scene.consume, hlook, Option.bind_some, id]
    refine .inr ⟨_, _, rfl, rfl, ?_⟩
    rw [hrefused]
    exact h.make_nested ho

theorem Sound.complies_tearDown (h : s.Sound p) (i : Nat) : s.Complies p (.tearDown i) := by
  refine h.complies_of_consume rfl rfl fun o ho => ?_
  cases o with
  | cell kind c => exact .inl ⟨rfl, rfl⟩
  | table t => exact .inr ⟨_, _, rfl, rfl, h.op_tearDown ho⟩
  | space sp => exact .inl ⟨rfl, rfl⟩

theorem Sound.complies_destroy (h : s.Sound p) (i : Nat) : s.Complies p (.destroy i) := by
  refine h.complies_of_consume rfl rfl fun o ho => ?_
  cases o with
  | cell kind c => exact .inl ⟨rfl, rfl⟩
  | table t => exact .inl ⟨rfl, rfl⟩
  | space sp => exact .inr ⟨_, _, rfl, rfl, h.op_destroy ho⟩

theorem Sound.complies_release (h : s.Sound p) (i : Nat) : s.Complies p (.release i) :=
  h.complies_of_consume rfl rfl fun _ ho => .inr ⟨_, _, rfl, rfl, h.op_release ho⟩

/-! ## Requests for cells -/

theorem Sound.complies_newCell (h : s.Sound p) (kind : CellKind) (d : Datum) :
    s.Complies p (.newCell kind d) := by
  have hrun := run_newCell s kind d
  cases hv : d.value? kind with
  | none =>
    rw [hv] at hrun
    refine h.complies_of_idle hrun ?_
    simp only [Request.see, hv, Option.isSome_none, Bool.false_eq_true, if_false]
  | some v =>
    rw [hv] at hrun
    refine complies_of_shows ?_
    rw [hrun]
    simp only [Request.see, hv, Option.isSome_some, if_true]
    exact h.make_cell hv

theorem Sound.complies_setCell (h : s.Sound p) (i : Nat) (d : Datum) :
    s.Complies p (.setCell i d) := by
  rcases run_setCell_cases s i d with hrun | ⟨kind, c, v, ho, hv, hrun⟩
  · exact h.complies_of_idle (hrun s rfl) rfl
  · refine complies_of_shows ?_
    rw [hrun s rfl]
    exact h.op_replace ho hv

theorem Sound.complies_setElement (h : s.Sound p) (i index : Nat) (w : UInt16) :
    s.Complies p (.setElement i index w) := by
  rcases run_setElement_cases s i index w with hrun | ⟨c, ho, hrun⟩
  · exact h.complies_of_idle (hrun s rfl) rfl
  · refine complies_of_shows ?_
    rw [hrun s rfl]
    exact h.op_setElement ho index w

theorem Sound.complies_setNested (h : s.Sound p) (i inner : Nat) :
    s.Complies p (.setNested i inner) := by
  have hlook : (s.scene.look i).bind Sight.inner? =
      ((s.object i).bind Object.nested?).map Sigma.fst := by
    rw [look_scene]
    cases s.object i with
    | none => rfl
    | some o => exact Object.inner?_sightIn o _
  rcases run_setNested_cases s i inner with ⟨hnested, hrun⟩ | ⟨kind, c, hi, hrun⟩
  · rw [hnested] at hlook
    refine h.complies_of_idle (hrun s rfl) ?_
    simp only [Request.see, hlook, Option.map_none]
  · rw [hi] at hlook
    refine h.complies_of_consume (hrun s rfl) (Request.see_setNested hlook inner) fun o ho => ?_
    cases hc : o.cell? kind with
    | none =>
      refine .inl ⟨rfl, ?_⟩
      cases o with
      | table t => rfl
      | space sp => rfl
      | cell kind' c' =>
        refine if_neg fun hkind => ?_
        rw [Object.cell?, if_pos hkind] at hc
        cases hc
    | some c' =>
      obtain rfl := Object.cell?_eq_some hc
      exact .inr ⟨_, id, rfl, if_pos rfl, h.op_replace_nested hi ho⟩

/-! ## Requests about tables and spaces -/

theorem Sound.complies_copyTable (h : s.Sound p) (i target : Nat) :
    s.Complies p (.copyTable i target) := by
  by_cases hsame : i = target
  · subst hsame
    exact h.complies_of_idle (run_copyTable_self s i) rfl
  have hrun := run_copyTable (s := s) hsame
  cases htable : (s.object i).bind Object.table? with
  | none =>
    rw [htable] at hrun
    exact h.complies_of_idle hrun rfl
  | some t =>
    obtain ⟨o, ho, ht⟩ := Option.bind_eq_some_iff.1 htable
    rw [htable] at hrun
    unfold Complies
    rw [hrun]
    exact (h.onTable_copyTo hsame ho ht).mono (fun _ _ hsound => ⟨hsound, fun hd => hd.elim⟩)
      (fun _ _ hsound => ⟨hsound, fun hd => hd.elim⟩) fun _ => .inr

theorem Sound.complies_copySpace (h : s.Sound p) (i : Nat) : s.Complies p (.copySpace i) := by
  have hrun := run_copySpace_eq s i
  have hlook := look_scene s i
  cases ho : s.object i with
  | none =>
    rw [ho] at hrun hlook
    refine h.complies_of_idle hrun ?_
    simp only [Request.see, hlook, Option.map_none]
  | some o =>
    rw [ho] at hrun hlook
    cases o with
    | cell kind c =>
      refine h.complies_of_idle hrun ?_
      simp only [Request.see, hlook, Option.map_some, Object.sightIn]
    | table t =>
      refine h.complies_of_idle hrun ?_
      simp only [Request.see, hlook, Option.map_some, Object.sightIn]
    | space sp =>
      refine complies_of_shows ?_
      rw [hrun]
      simp only [Request.see, hlook, Option.map_some, Object.sightIn]
      exact h.make_copy ho

theorem Sound.complies_fault_none (h : s.Sound p) (code : Nat) (a : VirtualAddress) :
    s.Complies p (.fault none code a) := by
  have hrun : (perform (.fault none code a)).run s =
      (op (serviceFault none code a s.mmu) >>= fun mmu =>
        Transition.change fun s => { s with mmu := mmu }).run s := rfl
  refine complies_of_shows ?_
  rw [hrun]
  refine Transition.Meets.bind (P := fun _ _ => False) (op_meets
    ((serviceFault_none code a s.mmu).mono (fun _ _ hfalse => hfalse) ?_ fun _ hH => hH.elim))
      fun _ _ hfalse => hfalse.elim
  exact fun _ k hlogs => h.shows_of_ram_eq (hlogs.holds h.holds_owned) hlogs.ram_eq

/-! ## Every request -/

/-- A permitted request keeps a session sound, and shows what it should. -/
theorem Sound.perform_meets (h : s.Sound p) (hr : r.Permitted p s) : s.Complies p r := by
  cases r with
  | allocate count =>
    exact complies_of_shows (h.op_lend (h.holds_owned.allocate_meets count))
  | allocateCleared count =>
    exact complies_of_shows (h.op_lend (h.holds_owned.allocateCleared_meets count))
  | allocatePages count => exact complies_of_shows h.perform_allocatePages
  | free a => exact complies_of_shows (h.perform_free hr)
  | mustFree a =>
    exact (h.perform_mustFree hr).mono (fun _ _ hshows => hshows.follows)
      (fun _ _ hshows => hshows.follows) fun _ _ => .inl trivial
  | freePages v =>
    exact (h.perform_freePages hr).mono (fun _ _ hshows => hshows.follows)
      (fun _ _ hshows => hshows.follows) fun _ _ => .inl trivial
  | poke a v =>
    exact (h.perform_poke hr.1 hr.2 v).mono (fun _ _ hQ => ⟨hQ.1, hQ.2⟩)
      (fun _ _ hfalse => hfalse.elim) fun _ => .inr
  | newCell kind d => exact h.complies_newCell kind d
  | nest i => exact h.complies_nest i
  | setCell i d => exact h.complies_setCell i d
  | setNested i inner => exact h.complies_setNested i inner
  | setElement i index w => exact h.complies_setElement i index w
  | newTable => exact complies_of_shows h.make_table
  | openSlot i slot => exact complies_of_shows (h.onTable_openSlot slot)
  | closeSlot i slot => exact complies_of_shows (h.onTable_closeSlot slot)
  | mapPage i slot entry writable =>
    exact complies_of_shows (h.onTable_mapPage slot entry writable)
  | writeProtect i a => exact complies_of_shows (h.onTable_writeProtect a)
  | copyTable i target => exact h.complies_copyTable i target
  | store i a v =>
    exact complies_of_shows (h.onTable_meets (·.store a v) fun _ _ _ hheld =>
      hheld.storeAt_becomes a v)
  | tearDown i => exact h.complies_tearDown i
  | newSpace => exact complies_of_shows h.make_space
  | addRegion i start size permissions =>
    exact complies_of_shows (h.onSpace_addRegion start size permissions)
  | beginLoad i => exact complies_of_shows h.onSpace_beginLoad
  | endLoad i => exact complies_of_shows h.onSpace_endLoad
  | fault i? code a =>
    cases i? with
    | none => exact h.complies_fault_none code a
    | some i => exact complies_of_shows (h.onSpace_fault code a)
  | copySpace i => exact h.complies_copySpace i
  | destroy i => exact h.complies_destroy i
  | release i => exact h.complies_release i
  | drive f => exact complies_of_shows (.done ⟨⟨h.holds, h.good⟩, rfl⟩)

end Session

end SoftPaging
