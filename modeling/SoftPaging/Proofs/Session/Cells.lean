import Mathlib
import SoftPaging.Proofs.Session.Acting

/-!
# Requests for cells

What a session comes to when its client makes a cell, stores in one, or moves one into another. A cell
that is moved leaves its place; it is owned by the outer cell from then on, or, when there is no frame
for that, it is gone.
-/

namespace SoftPaging

open Outcome

namespace Session

variable {p : FramePool} {own : List Block} {s : Session} {o : Object} {i inner : Nat} {k' : Kernel}
  {kind : CellKind} {c : FrameCell kind.Value} {v : kind.Value} {d : Datum}
  {R : Refusal → Session → Prop} {H : Halt → Prop}

/-! ## What is asked of which cell -/

theorem run_newCell (s : Session) (kind : CellKind) (d : Datum) :
    (perform (.newCell kind d)).run s =
      (match d.value? kind with
      | some v => make (.cell kind) (FrameCell.new v)
      | none => pure () : Act Unit).run s := rfl

theorem run_setCell (s : Session) (i : Nat) (d : Datum) : (perform (.setCell i d)).run s =
    (match s.object i with
    | some (.cell kind c) =>
      match d.value? kind with
      | some v => op (c.replace v)
      | none => pure ()
    | _ => pure () : Act Unit).run s := rfl

theorem run_setElement (s : Session) (i index : Nat) (w : UInt16) :
    (perform (.setElement i index w)).run s =
      (match s.object i with
      | some (.cell .halves c) => op (FrameCell.setElement c index w)
      | _ => pure () : Act Unit).run s := rfl

theorem run_setNested (s : Session) (i inner : Nat) : (perform (.setNested i inner)).run s =
    (match (s.object i).bind Object.nested? with
    | some ⟨kind, c⟩ => consume inner fun o =>
        (o.cell? kind).map fun c' => op (c.replace (CellKind.wrap c'))
    | none => pure () : Act Unit).run s := rfl

/-- What a request to store in a cell comes to depends on the objects only. -/
theorem run_setCell_cases (s : Session) (i : Nat) (d : Datum) :
    (∀ t, t.objects = s.objects → (perform (.setCell i d)).run t = .done () t) ∨
      ∃ kind, ∃ c : FrameCell kind.Value, ∃ v, s.object i = some (.cell kind c) ∧
        d.value? kind = some v ∧ ∀ t, t.objects = s.objects →
          (perform (.setCell i d)).run t = (op (c.replace v)).run t := by
  have hrun (t : Session) (ht : t.objects = s.objects) := object_congr ht i ▸ run_setCell t i d
  cases ho : s.object i with
  | none =>
    simp only [ho] at hrun
    exact .inl hrun
  | some o =>
    simp only [ho] at hrun
    cases o with
    | table t => exact .inl hrun
    | space sp => exact .inl hrun
    | cell kind c =>
      cases hv : d.value? kind with
      | none =>
        simp only [hv] at hrun
        exact .inl hrun
      | some v =>
        simp only [hv] at hrun
        exact .inr ⟨kind, c, v, rfl, hv, hrun⟩

theorem run_setElement_cases (s : Session) (i index : Nat) (w : UInt16) :
    (∀ t, t.objects = s.objects → (perform (.setElement i index w)).run t = .done () t) ∨
      ∃ c : FrameCell Halves, s.object i = some (.cell .halves c) ∧ ∀ t, t.objects = s.objects →
        (perform (.setElement i index w)).run t = (op (c.setElement index w)).run t := by
  have hrun (t : Session) (ht : t.objects = s.objects) :=
    object_congr ht i ▸ run_setElement t i index w
  cases ho : s.object i with
  | none =>
    simp only [ho] at hrun
    exact .inl hrun
  | some o =>
    simp only [ho] at hrun
    cases o with
    | table t => exact .inl hrun
    | space sp => exact .inl hrun
    | cell kind c =>
      cases kind with
      | byte => exact .inl hrun
      | word => exact .inl hrun
      | nested inner => exact .inl hrun
      | halves => exact .inr ⟨c, rfl, hrun⟩

/-- The cell of the inner place is moved if there is one for it to be moved into. -/
theorem run_setNested_cases (s : Session) (i inner : Nat) :
    (s.object i).bind Object.nested? = none ∧
        (∀ t, t.objects = s.objects → (perform (.setNested i inner)).run t = .done () t) ∨
      ∃ kind, ∃ c : FrameCell (CellKind.nested kind).Value,
        s.object i = some (.cell (.nested kind) c) ∧ ∀ t, t.objects = s.objects →
          (perform (.setNested i inner)).run t = (consume inner fun o =>
            (o.cell? kind).map fun c' => op (c.replace (CellKind.wrap c'))).run t := by
  have hrun (t : Session) (ht : t.objects = s.objects) :=
    object_congr ht i ▸ run_setNested t i inner
  cases hnested : (s.object i).bind Object.nested? with
  | none =>
    simp only [hnested] at hrun
    exact .inl ⟨rfl, hrun⟩
  | some nested =>
    obtain ⟨kind, c⟩ := nested
    obtain ⟨outer, ho, houter⟩ := Option.bind_eq_some_iff.1 hnested
    rw [Object.nested?_eq_some houter] at ho
    simp only [hnested] at hrun
    exact .inr ⟨kind, c, ho, hrun⟩

/-! ## Beside what stays -/

/-- A cell is held next to all that is owned besides. -/
theorem Sound.take_cell (h : s.Sound p) (ho : s.object i = some (.cell kind c)) :
    c.Aligned s.kernel.ram ∧
      s.kernel.Holds p (c.blocksIn s.kernel.ram ++ (s.put i none).owned) := by
  obtain ⟨htaken, hgood⟩ := h.take ho
  have hholds := htaken.holds
  rw [List.append_nil] at hholds
  exact ⟨hgood, hholds⟩

/-- A value that owns nothing is held next to anything. -/
theorem holds_datum (hv : d.value? kind = some v) {k : Kernel} (live : List Block)
    {rest : List Block} (h : k.Holds p (live ++ rest)) :
    Owning.Aligned k.ram v ∧ k.Holds p (live ++ (Owning.blocksIn k.ram v ++ rest)) := by
  obtain ⟨hblocks, haligned⟩ := Datum.owns_nothing hv k.ram
  rw [hblocks]
  exact ⟨haligned, h⟩

/-- A cell and one that it may hold are held next to all that is owned besides. -/
theorem Sound.take_nested {c : FrameCell (CellKind.nested kind).Value} {c' : FrameCell kind.Value}
    (h : s.Sound p) (ho : s.object i = some (.cell (.nested kind) c))
    (ho' : s.object inner = some (.cell kind c')) :
    inner ≠ i ∧ c.Aligned s.kernel.ram ∧ Owning.Aligned s.kernel.ram (CellKind.wrap c') ∧
      s.kernel.Holds p (c.blocksIn s.kernel.ram ++
        (Owning.blocksIn s.kernel.ram (CellKind.wrap c') ++
          ((s.put inner none).put i none).owned)) := by
  have hne : inner ≠ i := by
    rintro rfl
    rw [ho] at ho'
    cases ho'
  obtain ⟨htaken, hgood'⟩ := h.take ho'
  obtain ⟨htaken₁, hgood⟩ := htaken.take ((object_put_of_ne hne).trans ho)
  have hholds := htaken₁.holds
  rw [List.append_nil, List.append_assoc] at hholds
  exact ⟨hne, hgood, hgood', hholds⟩

/-- A value that owns nothing is stored in a new cell. -/
theorem Sound.new_beside (h : s.Sound p) (hv : d.value? kind = some v) :
    ((FrameCell.new v).run s.kernel).Meets (fun c k => c.Owned p s.owned s.kernel k)
      (fun _ k => (k.Holds p s.owned ∧ s.kernel.ram.SameBlocks k.ram s.owned) ∧
        p.spare s.owned = ∅) never := by
  obtain ⟨haligned, hholds⟩ := holds_datum hv [] h.holds_owned
  refine (FrameCell.new_owned haligned hholds).mono (fun _ _ hQ => hQ.1) ?_ fun _ hH => hH
  rintro cause k ⟨-, hleft, -, hnone⟩
  rw [(Datum.owns_nothing hv _).1, List.nil_append] at hnone
  exact ⟨hleft, hnone⟩

/-- A cell that is taken off the client is stored in a new one. -/
theorem Sound.nest_beside (h : s.Sound p) (ho : s.object i = some (.cell kind c)) :
    ((FrameCell.new (CellKind.wrap c)).run s.kernel).Meets
      (fun c' k => c'.Owned p (s.put i none).owned s.kernel k)
      (fun _ k => k.Holds p (s.put i none).owned ∧
        s.kernel.ram.SameBlocks k.ram (s.put i none).owned) never := by
  obtain ⟨hgood, hholds⟩ := h.take_cell ho
  exact (FrameCell.new_owned (v := CellKind.wrap c) hgood hholds).mono (fun _ _ hQ => hQ.1)
    (fun _ _ hR => hR.2.1) fun _ hH => hH

/-- A value that owns nothing replaces that of a cell. -/
theorem Sound.replace_beside (h : s.Sound p) (ho : s.object i = some (.cell kind c))
    (hv : d.value? kind = some v) : ∃ k', (c.replace v).run s.kernel = .done () k' ∧
      c.Owned p (s.put i none).owned s.kernel k' := by
  obtain ⟨hgood, hholds⟩ := h.take_cell ho
  obtain ⟨haligned, hholds⟩ := holds_datum hv _ hholds
  exact FrameCell.replace_owned hgood haligned hholds

/-- A cell that is taken off the client replaces what is in another. -/
theorem Sound.replace_nested_beside {c : FrameCell (CellKind.nested kind).Value}
    {c' : FrameCell kind.Value} (h : s.Sound p) (ho : s.object i = some (.cell (.nested kind) c))
    (ho' : s.object inner = some (.cell kind c')) :
    (s.put inner none).object i = some (.cell (.nested kind) c) ∧
      ∃ k', (c.replace (CellKind.wrap c')).run s.kernel = .done () k' ∧
        c.Owned p ((s.put inner none).put i none).owned s.kernel k' := by
  obtain ⟨hne, hgood, hvalue, hholds⟩ := h.take_nested ho ho'
  exact ⟨(object_put_of_ne hne).trans ho, FrameCell.replace_owned hgood hvalue hholds⟩

theorem Sound.setElement_beside {c : FrameCell Halves} (h : s.Sound p)
    (ho : s.object i = some (.cell .halves c)) (index : Nat) (w : UInt16) :
    ((c.setElement index w).run s.kernel).Meets
      (fun _ k => c.Owned p (s.put i none).owned s.kernel k) (fun _ _ => False)
      (fun cause => cause = .indexOutOfBounds 2048 index) := by
  obtain ⟨hgood, hholds⟩ := h.take_cell ho
  exact FrameCell.setElement_owned hgood hholds index w

/-! ## What is seen afterwards -/

/-- A cell that is owned beside what stays is an object to add. -/
theorem adds_cell (h : c.Owned p s.owned s.kernel k') :
    s.Adds p (.cell kind) (.cell kind c) k' :=
  ⟨h.holds, h.same, h.aligned, rfl⟩

/-- Storing in a cell leaves it where it is. -/
theorem Keeps.shows_cell (h : s.Keeps p own) (ho : s.object i = some (.cell kind c))
    (howned : c.Owned p (s.put i none).owned s.kernel k') : (s.withKernel k').Shows p s.scene := by
  have hput : (s.withKernel k').put i (some (.cell kind c)) = s.withKernel k' := put_object ho
  have hlook : s.scene.look i = some (.cell kind) := by
    rw [look_scene, ho]
    rfl
  have hgood : (Object.cell kind c).Good k'.ram := howned.aligned
  have hshows := h.replace ho howned.holds howned.same hgood
  rw [hput] at hshows
  exact ⟨hshows.sound, hshows.scene_eq.trans (Scene.set_look hlook)⟩

theorem Sound.make_cell (h : s.Sound p) (hv : d.value? kind = some v) :
    ((make (.cell kind) (FrameCell.new v)).run s).Meets
      (fun _ s' => s'.Shows p (s.scene.keep (.cell kind))) (fun _ s' => s'.Shows p s.scene) H :=
  make_meets h ((h.new_beside hv).mono (fun _ _ howned => adds_cell howned) (fun _ _ hR => hR.1)
    fun _ hH => hH.elim)

/-- The cell that is moved into a new one leaves its place. -/
theorem Sound.make_nested (h : s.Sound p) (ho : s.object i = some (.cell kind c)) :
    ((make (.cell (.nested kind)) (FrameCell.new (CellKind.wrap c))).run
        (s.put i none)).Meets
      (fun _ s' => s'.Shows p (Scene.keep (s.scene.set i none) (.cell (.nested kind))))
      (fun _ s' => s'.Shows p (s.scene.set i none)) H := by
  have hscene : (s.put i none).scene = s.scene.set i none := scene_put s i none
  rw [← hscene]
  exact make_meets (h.take ho).1 ((h.nest_beside ho).mono (fun _ _ howned => adds_cell howned)
    (fun _ _ hR => hR) fun _ hH => hH.elim)

theorem Sound.op_replace (h : s.Sound p) (ho : s.object i = some (.cell kind c))
    (hv : d.value? kind = some v) :
    ((op (c.replace v)).run s).Meets (fun _ s' => s'.Shows p s.scene) R H := by
  obtain ⟨k', hrun, howned⟩ := h.replace_beside ho hv
  refine op_meets ?_
  rw [hrun]
  exact .done (h.shows_cell ho howned)

/-- The cell that is moved into another leaves its place; the one that was there is given back. -/
theorem Sound.op_replace_nested {c : FrameCell (CellKind.nested kind).Value}
    {c' : FrameCell kind.Value} (h : s.Sound p) (ho : s.object i = some (.cell (.nested kind) c))
    (ho' : s.object inner = some (.cell kind c')) :
    ((op (c.replace (CellKind.wrap c'))).run (s.put inner none)).Meets
      (fun _ s' => s'.Shows p (s.scene.set inner none)) R H := by
  obtain ⟨ho₁, k', hrun, howned⟩ := h.replace_nested_beside ho ho'
  have hshows := (h.take ho').1.shows_cell ho₁ howned
  rw [scene_put] at hshows
  refine op_meets ?_
  rw [kernel_put, hrun]
  exact .done hshows

theorem Sound.op_setElement {c : FrameCell Halves} (h : s.Sound p)
    (ho : s.object i = some (.cell .halves c)) (index : Nat) (w : UInt16) :
    ((op (c.setElement index w)).run s).Meets (fun _ s' => s'.Shows p s.scene) R
      (fun cause => ¬ cause.FreeRefused) := by
  refine op_meets ((h.setElement_beside ho index w).mono ?_ ?_ ?_)
  · exact fun _ k howned => h.shows_cell ho howned
  · exact fun _ _ hfalse => hfalse.elim
  · rintro cause rfl
    exact id

end Session

end SoftPaging
