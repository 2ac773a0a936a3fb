import Mathlib
import SoftPaging.Proofs.Session.Ownership

/-!
# Memory is private

What a program reads through a page table is what the scene says, and the scene knows of no frames:
it follows from the requests alone, and from which of them were granted (`runs_private`). So a byte
that a program stored stays until it stores another there, gives the page up, or is destroyed. What
other programs do, what the client does with frames and cells, and what is refused cannot be seen.
-/

namespace SoftPaging

open Outcome

/-! ## What a request cannot change -/

/-- The request may change what is resident in the page table at a place, or end it. -/
def Request.Concerns (i : Nat) : Request → Prop
  | closeSlot j _ | mapPage j _ _ _ | store j _ _ | tearDown j | destroy j | release j => j = i
  | copyTable _ target => target = i
  | fault j? _ _ => j? = some i
  | _ => False

namespace Scene

variable {w : Scene} {i j : Nat} {x y : Sight} {im : Image} {f : Sight → Option (Scene → Scene)}

/-- The image of the page table at a place. -/
def imageAt (w : Scene) (i : Nat) : Option Image := (w.look i).bind Sight.image?

theorem look_keep (h : w.look i = some x) : (w.keep y).look i = some x := by
  obtain ⟨hi, -⟩ := List.getElem?_eq_some_iff.1 (Option.join_eq_some_iff.1 h)
  unfold look keep
  rw [List.getElem?_append_left hi]
  exact h

theorem look_set_of_ne (hne : j ≠ i) (x? : Option Sight) : look (w.set j x?) i = w.look i := by
  unfold look
  rw [List.getElem?_set_ne hne]

theorem look_change_of_ne (hne : j ≠ i) (g : Sight → Sight) :
    (w.change j g).look i = w.look i := by
  unfold change
  cases w.look j with
  | none => rfl
  | some x => exact look_set_of_ne hne _

/-- Consuming another object, and adding one, leaves an object as it is. -/
theorem look_consume (h : w.look i = some x) (hself : j = i → f x = none)
    (hkeep : ∀ y g w', f y = some g → look w' i = some x → (g w').look i = some x) :
    (w.consume j f).look i = some x := by
  unfold consume
  cases hg : (w.look j).bind f with
  | none => exact h
  | some g =>
    obtain ⟨y, hy, hg⟩ := Option.bind_eq_some_iff.1 hg
    have hne : j ≠ i := by
      rintro rfl
      obtain rfl := Option.some.inj (h.symm.trans hy)
      rw [hself rfl] at hg
      cases hg
    exact hkeep y g _ hg ((look_set_of_ne hne none).trans h)

/-- Consuming a cell leaves a page table as it is. -/
theorem look_consume_cell (hx : x.image? = some im) (h : w.look i = some x)
    (htable : ∀ im, f (.table im) = none) (hspace : ∀ im, f (.space im) = none)
    (hkeep : ∀ kind g w', f (.cell kind) = some g → look w' i = some x →
      (g w').look i = some x) : (w.consume j f).look i = some x := by
  refine look_consume h (fun _ => ?_) fun y g w' hg hw => ?_
  · cases x with
    | cell kind => cases hx
    | table im => exact htable im
    | space im => exact hspace im
  · cases y with
    | cell kind => exact hkeep kind g w' hg hw
    | table im => cases (htable im).symm.trans hg
    | space im => cases (hspace im).symm.trans hg

end Scene

namespace Request

variable {r : Request} {w : Scene} {i : Nat} {x : Sight} {im : Image}

/-- A page table is seen as before after every request that does not concern it. -/
theorem look_see (hx : x.image? = some im) (h : w.look i = some x) (hr : ¬ r.Concerns i) :
    (r.see w).look i = some x := by
  cases r with
  | newCell kind d =>
    simp only [see]
    split
    · exact Scene.look_keep h
    · exact h
  | nest j =>
    refine Scene.look_consume_cell hx h (fun _ => rfl) (fun _ => rfl) fun kind g w' hg hw => ?_
    cases hg
    exact Scene.look_keep hw
  | setNested j inner =>
    simp only [see]
    split
    · refine Scene.look_consume_cell hx h (fun _ => rfl) (fun _ => rfl) fun kind g w' hg hw => ?_
      obtain ⟨-, hid⟩ := Option.ite_none_right_eq_some.1 hg
      cases hid
      exact hw
    · exact h
  | newTable => exact Scene.look_keep h
  | closeSlot j slot => exact (Scene.look_change_of_ne hr _).trans h
  | mapPage j slot entry writable => exact (Scene.look_change_of_ne hr _).trans h
  | store j a v => exact (Scene.look_change_of_ne hr _).trans h
  | tearDown j =>
    refine Scene.look_consume h (fun heq => absurd heq hr) fun y g w' hg hw => ?_
    cases y with
    | cell kind => cases hg
    | table im =>
      cases hg
      exact hw
    | space im => cases hg
  | newSpace => exact Scene.look_keep h
  | fault j? code a =>
    cases j? with
    | none => exact h
    | some j => exact (Scene.look_change_of_ne (fun heq => hr (congrArg some heq)) _).trans h
  | copySpace j =>
    simp only [see]
    split
    · exact Scene.look_keep h
    · exact h
  | destroy j =>
    refine Scene.look_consume h (fun heq => absurd heq hr) fun y g w' hg hw => ?_
    cases y with
    | cell kind => cases hg
    | table im => cases hg
    | space im =>
      cases hg
      exact hw
  | release j =>
    refine Scene.look_consume h (fun heq => absurd heq hr) fun y g w' hg hw => ?_
    cases hg
    exact hw
  | _ => exact h

/-- A page table is seen as before after every request that is refused. -/
theorem look_seeRefused (hx : x.image? = some im) (h : w.look i = some x) :
    (r.seeRefused w).look i = some x := by
  cases r with
  | nest j =>
    refine Scene.look_consume_cell hx h (fun _ => rfl) (fun _ => rfl) fun kind g w' hg hw => ?_
    cases hg
    exact hw
  | _ => exact h

end Request

namespace Session

variable {p : FramePool} {s s₀ : Session} {P : Session → Request → Prop} {w : Scene}
  {trace : List (Request × Bool)} {i : Nat} {o : Object} {t : PageTable} {x : Sight} {im : Image}

/-! ## Runs and scenes -/

theorem sceneAfter_append (w : Scene) (trace : List (Request × Bool)) (r : Request)
    (granted : Bool) : sceneAfter w (trace ++ [(r, granted)]) =
      if granted then r.see (sceneAfter w trace) else r.seeRefused (sceneAfter w trace) := by
  unfold sceneAfter
  rw [List.foldl_append]
  rfl

/-- What is seen after a run is a matter of the requests and of which were granted. -/
theorem Runs.scene_eq (h : Runs P s₀ trace s)
    (hP : ∀ s r, P s r → r.Permitted p s ∧ r.Discreet s) (hs₀ : s₀.Sound p) :
    s.scene = sceneAfter s₀.scene trace := by
  induction h with
  | start => rfl
  | granted h hr hrun ih =>
    have hsound := h.sound (fun s r hr => (hP s r hr).1) hs₀
    have hfollows := (hsound.perform_meets (hP _ _ hr).1).of_done hrun
    rw [sceneAfter_append, if_pos rfl, ← ih]
    exact hfollows.scene_eq (hP _ _ hr).2
  | refused h hr hrun ih =>
    have hsound := h.sound (fun s r hr => (hP s r hr).1) hs₀
    have hfollows := (hsound.perform_meets (hP _ _ hr).1).of_refused hrun
    rw [sceneAfter_append, if_neg Bool.false_ne_true, ← ih]
    exact hfollows.scene_eq (hP _ _ hr).2

/-- Reading through a page table at an address gives a byte, or finds nothing resident. -/
def Reads (s : Session) (t : PageTable) (a : VirtualAddress) (v? : Option UInt8) : Prop :=
  ∃ pa?, (t.translate a).run s.kernel = .done pa? s.kernel ∧
    pa?.map (fun pa => s.kernel.ram.byte pa.val) = v?

theorem Sound.reads (h : s.Sound p) (ho : s.object i = some o) (ht : o.table? = some t)
    (a : VirtualAddress) :
    s.Reads t a ((t.mapIn s.kernel.ram).image s.kernel.ram a) :=
  (h.held ho ht).translate_image a

theorem imageAt_scene (ho : s.object i = some o) (ht : o.table? = some t) :
    s.scene.imageAt i = some ((t.mapIn s.kernel.ram).image s.kernel.ram) := by
  unfold Scene.imageAt
  rw [look_of_table? ho ht, Option.bind_some]
  cases o <;> cases ht <;> rfl

/-- What is read through each page table is in the scene, which only a granted request that concerns
the table changes there. -/
theorem runs_private (hboot : s₀.Booted p)
    (hruns : Runs (fun s r => r.Permitted p s ∧ r.Discreet s) s₀ trace s) :
    (∀ i o t, s.object i = some o → o.table? = some t →
      ∃ im, (sceneAfter [] trace).imageAt i = some im ∧ ∀ a, s.Reads t a (im a)) ∧
    ∀ i im r granted, (sceneAfter [] trace).imageAt i = some im →
      (granted = true → ¬ r.Concerns i) →
        (sceneAfter [] (trace ++ [(r, granted)])).imageAt i = some im := by
  have hscene := hruns.scene_eq (fun _ _ hr => hr) hboot.sound
  have hsound := hruns.sound (fun _ _ hr => hr.1) hboot.sound
  rw [hboot.scene_eq] at hscene
  rw [← hscene]
  constructor
  · intro i o t ho ht
    exact ⟨_, imageAt_scene ho ht, hsound.reads ho ht⟩
  · intro i im r granted himage hother
    obtain ⟨x, hlook, hx⟩ := Option.bind_eq_some_iff.1 himage
    have hafter : (sceneAfter [] (trace ++ [(r, granted)])).look i = some x := by
      rw [sceneAfter_append, ← hscene]
      cases granted with
      | true => exact Request.look_see hx hlook (hother rfl)
      | false => exact Request.look_seeRefused hx hlook
    unfold Scene.imageAt
    rw [hafter, Option.bind_some, hx]

/-! ## A small machine -/

/-- A store is never refused. -/
theorem Sound.store_done (h : s.Sound p) (ho : s.object i = some o) (ht : o.table? = some t)
    (a : VirtualAddress) (v : UInt8) :
    ∃ s', (perform (.store i a v)).run s = .done () s' ∧ s'.objects = s.objects := by
  obtain ⟨⟨⟩, k', hstore, -⟩ := ((h.held ho ht).storeAt_becomes (R := fun _ _ => False)
    (H := never) a v).exists_done
  have hrun : (perform (.store i a v)).run s = (onTable i (storeAt · a v)).run s := rfl
  rw [run_onTable, ho, Option.bind_some, ht] at hrun
  exact ⟨_, hrun.trans (run_op_of_done hstore), rfl⟩

/-- On eight pages of RAM, a program faults in a page of its stack, which is all zeros, and stores a
byte there. It reads back what it stored. -/
theorem eight_pages_private : ∃ (s₀ s : Session) (sp : AddressSpace) (im : Image),
    s₀.Booted (pages 8) ∧ Runs (fun s r => r.Permitted (pages 8) s ∧ r.Discreet s) s₀
      [(.newSpace, true), (.fault (some 0) 0 stackPage, true), (.store 0 stackPage 7, true)] s ∧
    s.object 0 = some (.space sp) ∧
      (sceneAfter [] [(.newSpace, true), (.fault (some 0) 0 stackPage, true),
        (.store 0 stackPage 7, true)]).imageAt 0 = some im ∧ (∀ a, s.Reads sp.table a (im a)) ∧
        s.Reads sp.table stackPage (some 7) := by
  obtain ⟨s₀, s₁, sp, hboot, hruns₁, hobjects₁, hvacant, hfree⟩ := exists_newSpace (n := 8)
    (P := fun s r => r.Permitted (pages 8) s ∧ r.Discreet s) (by decide) (by decide)
    fun _ => ⟨trivial, trivial⟩
  have hsound₁ := hruns₁.sound (fun _ _ hr => hr.1) hboot.sound
  have ho₁ := object_first hobjects₁
  have hneed := hsound₁.need_of_vacant ho₁ hvacant stackPage
  obtain ⟨s₂, hfault, -, hobjects₂, -⟩ :=
    hsound₁.fault_done ho₁ Nat.zero_lt_two (reaches_stackPage sp) (by omega)
  have hruns₂ := hruns₁.granted (r := .fault (some 0) 0 stackPage) ⟨trivial, trivial⟩ hfault
  have hsound₂ := hruns₂.sound (fun _ _ hr => hr.1) hboot.sound
  have ho₂ := (object_congr hobjects₂ 0).trans ho₁
  obtain ⟨s₃, hstore, hobjects₃⟩ := hsound₂.store_done ho₂ rfl stackPage 7
  have hruns := hruns₂.granted (r := .store 0 stackPage 7) ⟨trivial, trivial⟩ hstore
  have ho₃ := (object_congr hobjects₃ 0).trans ho₂
  obtain ⟨im, himage, hreads⟩ := (runs_private hboot hruns).1 0 _ sp.table ho₃ rfl
  have hseven : im stackPage = some 7 := by
    obtain rfl : (Image.blank.fill stackPage.directoryIndex.val stackPage.tableIndex.val).store
      stackPage 7 = im := Option.some.inj himage
    simp [Image.store, Image.fill]
  exact ⟨s₀, s₃, sp, im, hboot, hruns, ho₃, himage, hreads, hseven ▸ hreads stackPage⟩

end Session

end SoftPaging
