import Mathlib
import SoftPaging.Proofs.Pool.Serving
import SoftPaging.Proofs.Session.Sound

/-!
# Acting on a session

What each way of acting on a session comes to, from what its operation on the kernel does. All of
them end in a sound session with a known scene: making an object adds one, working on a page table or
an address space changes one image, consuming an object takes it away.
-/

namespace SoftPaging

open Outcome

namespace Session

variable {α : Type} {p : FramePool} {own own' : List Block} {s : Session} {o : Object} {i : Nat}
  {k' : Kernel} {t : PageTable} {R : Refusal → Session → Prop} {H : Halt → Prop}

/-- An operation on the kernel of a session. -/
theorem run_op (x : Op α) (s : Session) : (op x).run s =
    match x.run s.kernel with
    | .done a k => .done a (s.withKernel k)
    | .refused cause k => .refused cause (s.withKernel k)
    | .halted cause => .halted cause := rfl

theorem op_meets {x : Op α} {Q : α → Session → Prop} {R : Refusal → Session → Prop}
    (hx : (x.run s.kernel).Meets (fun a k => Q a (s.withKernel k))
      (fun cause k => R cause (s.withKernel k)) H) : ((op x).run s).Meets Q R H := by
  rw [run_op]
  cases hrun : x.run s.kernel with
  | done a k => exact .done (hx.of_done hrun)
  | refused cause k => exact .refused (hx.of_refused hrun)
  | halted cause => exact .halted (hx.of_halted hrun)

theorem run_op_of_done {x : Op α} {a : α} (hx : x.run s.kernel = .done a k') :
    (op x).run s = .done a (s.withKernel k') := by
  rw [run_op, hx]

/-- What stays in the books when an operation kept to the blocks that were taken out. -/
theorem Keeps.shows (h : s.Keeps p own) (hk : k'.Holds p s.owned)
    (hsame : s.kernel.ram.SameBlocks k'.ram s.owned) : (s.withKernel k').Shows p s.scene := by
  obtain ⟨hsound, hscene⟩ := h.withKernel (show k'.Holds p ([] ++ s.owned) from hk) hsame
  exact ⟨hsound, hscene⟩

theorem Sound.holds_owned (h : s.Sound p) : s.kernel.Holds p s.owned := h.holds

/-! ## Making an object -/

/-- An object that owns blocks beside those that stay, and looks like this. -/
structure Adds (p : FramePool) (s : Session) (x : Sight) (o : Object) (k' : Kernel) : Prop where
  holds : k'.Holds p (o.blocksIn k'.ram ++ s.owned)
  same : s.kernel.ram.SameBlocks k'.ram s.owned
  good : o.Good k'.ram
  sight_eq : o.sightIn k'.ram = x

theorem make_meets (h : s.Keeps p own) {object : α → Object} {x : Op α} {sight : Sight}
    (hx : (x.run s.kernel).Meets (fun a k => s.Adds p sight (object a) k)
      (fun _ k => k.Holds p s.owned ∧ s.kernel.ram.SameBlocks k.ram s.owned) H) :
    ((make object x).run s).Meets (fun _ s' => s'.Shows p (s.scene.keep sight))
      (fun _ s' => s'.Shows p s.scene) H := by
  unfold make
  refine Transition.Meets.bind (op_meets (Q := fun a s' => s'.Keeps p
    ((object a).blocksIn s'.kernel.ram ++ []) ∧ s'.scene = s.scene ∧
      (object a).Good s'.kernel.ram ∧ (object a).sightIn s'.kernel.ram = sight) (hx.mono ?_ ?_
        fun _ hH => hH)) ?_
  · intro a k hadds
    have hholds : k.Holds p (((object a).blocksIn k.ram ++ []) ++ s.owned) := by
      rw [List.append_nil]
      exact hadds.holds
    obtain ⟨hkeeps, hscene⟩ := h.withKernel hholds hadds.same
    exact ⟨hkeeps, hscene, hadds.good, hadds.sight_eq⟩
  · rintro cause k ⟨hholds, hsame⟩
    exact h.shows hholds hsame
  · rintro a s' ⟨hkeeps, hscene, hgood, hsight⟩
    refine .done ⟨hkeeps.keep hgood, ?_⟩
    rw [scene_keep, hscene, hsight]

/-! ## Working on an object -/

theorem look_of_table? (ho : s.object i = some o) (ht : o.table? = some t) :
    s.scene.look i = some (o.sightOf ((t.mapIn s.kernel.ram).image s.kernel.ram)) := by
  rw [look_scene, ho, Option.map_some, Object.sightIn_of_table? ht]

/-- An operation that changes what a page table shows. -/
theorem Sound.shows_change (h : s.Sound p) (ho : s.object i = some o) (ht : o.table? = some t)
    {im : Image} (hb : t.Becomes p (s.put i none).owned s.kernel im k') :
    (s.withKernel k').Shows p (s.scene.set i (some (o.sightOf im))) := by
  have hput : (s.withKernel k').put i (some o) = s.withKernel k' := put_object ho
  have hshows := h.becomes ho ht (h.take ho).2.fit hb
  rwa [hput] at hshows

/-- An operation that changes nothing that a page table shows. -/
theorem Sound.shows_same (h : s.Sound p) (ho : s.object i = some o) (ht : o.table? = some t)
    (hb : t.Becomes p (s.put i none).owned s.kernel
      ((t.mapIn s.kernel.ram).image s.kernel.ram) k') : (s.withKernel k').Shows p s.scene := by
  have hshows := h.shows_change ho ht hb
  rwa [Scene.set_look (look_of_table? ho ht)] at hshows

theorem change_mapImage_of_no_table (h : (s.object i).bind Object.table? = none)
    (g : Image → Image) : s.scene.change i (.mapImage g) = s.scene := by
  refine Scene.change_of_fixed fun x hx => ?_
  rw [look_scene] at hx
  obtain ⟨o, ho, rfl⟩ := Option.map_eq_some_iff.1 hx
  rw [ho, Option.bind_some] at h
  cases o with
  | cell kind c => rfl
  | table t => cases h
  | space sp => cases h

theorem change_mapImage_of_table? (ho : s.object i = some o) (ht : o.table? = some t)
    (g : Image → Image) : s.scene.change i (.mapImage g) =
      s.scene.set i (some (o.sightOf (g ((t.mapIn s.kernel.ram).image s.kernel.ram)))) := by
  unfold Scene.change
  rw [look_of_table? ho ht]
  cases o <;> cases ht <;> rfl

theorem run_onTable (f : PageTable → Op Unit) : (onTable i f).run s =
    match (s.object i).bind Object.table? with
    | some t => (op (f t)).run s
    | none => .done () s := by
  unfold onTable
  rw [Transition.run_bind, Transition.run_observe, andThen_done]
  cases (s.object i).bind Object.table? <;> rfl

theorem Sound.onTable_meets (h : s.Sound p) (g : Image → Image) {f : PageTable → Op Unit}
    (hf : ∀ t m rest, t.Held s.kernel p m rest → ((f t).run s.kernel).Meets
      (fun _ k => t.Becomes p rest s.kernel (g (m.image s.kernel.ram)) k)
      (fun _ k => t.Becomes p rest s.kernel (m.image s.kernel.ram) k) H) :
    ((onTable i f).run s).Meets (fun _ s' => s'.Shows p (s.scene.change i (.mapImage g)))
      (fun _ s' => s'.Shows p s.scene) H := by
  rw [run_onTable]
  cases htable : (s.object i).bind Object.table? with
  | none =>
    rw [change_mapImage_of_no_table htable]
    exact .done ⟨h, rfl⟩
  | some t =>
    obtain ⟨o, ho, ht⟩ := Option.bind_eq_some_iff.1 htable
    rw [change_mapImage_of_table? ho ht]
    refine op_meets ((hf t _ _ (h.held ho ht)).mono ?_ ?_ fun _ hH => hH)
    · exact fun _ k hb => h.shows_change ho ht hb
    · exact fun _ k hb => h.shows_same ho ht hb

theorem change_mapSpace_of_no_space (h : ∀ sp, s.object i ≠ some (.space sp)) (g : Image → Image) :
    s.scene.change i (.mapSpace g) = s.scene := by
  refine Scene.change_of_fixed fun x hx => ?_
  rw [look_scene] at hx
  obtain ⟨o, ho, rfl⟩ := Option.map_eq_some_iff.1 hx
  cases o with
  | cell kind c => rfl
  | table t => rfl
  | space sp => exact absurd ho (h sp)

theorem change_mapSpace_of_space {sp : AddressSpace} (ho : s.object i = some (.space sp))
    (g : Image → Image) : s.scene.change i (.mapSpace g) =
      s.scene.set i (some (.space (g ((sp.table.mapIn s.kernel.ram).image s.kernel.ram)))) := by
  unfold Scene.change
  rw [look_scene, ho]
  rfl

theorem run_onSpace_of_no_space (h : ∀ sp, s.object i ≠ some (.space sp))
    (f : AddressSpace → Mmu TlbBuffer → Op (AddressSpace × Mmu TlbBuffer)) :
    (onSpace i f).run s = .done () s := by
  unfold onSpace
  rw [Transition.run_bind, Transition.run_observe, andThen_done]
  cases ho : s.object i with
  | none => rfl
  | some o =>
    cases o with
    | cell kind c => rfl
    | table t => rfl
    | space sp => exact absurd ho (h sp)

theorem run_onSpace {sp : AddressSpace} (ho : s.object i = some (.space sp))
    (f : AddressSpace → Mmu TlbBuffer → Op (AddressSpace × Mmu TlbBuffer)) :
    (onSpace i f).run s = ((op (f sp s.mmu)).run s).andThen fun after s' =>
      .done () { s'.put i (some (.space after.1)) with mmu := after.2 } := by
  unfold onSpace
  rw [Transition.run_bind, Transition.run_observe, andThen_done, ho]
  rfl

theorem Sound.onSpace_meets (h : s.Sound p) (g : Image → Image)
    {f : AddressSpace → Mmu TlbBuffer → Op (AddressSpace × Mmu TlbBuffer)}
    (hf : ∀ sp m rest, sp.Sound → sp.table.Held s.kernel p m rest →
      ((f sp s.mmu).run s.kernel).Meets
        (fun after k => after.1.Sound ∧ after.1.table = sp.table ∧
          sp.table.Becomes p rest s.kernel (g (m.image s.kernel.ram)) k)
        (fun _ k => sp.table.Becomes p rest s.kernel (m.image s.kernel.ram) k) H) :
    ((onSpace i f).run s).Meets (fun _ s' => s'.Shows p (s.scene.change i (.mapSpace g)))
      (fun _ s' => s'.Shows p s.scene) H := by
  rcases s.space_cases i with ⟨sp, ho⟩ | hspace
  · have hheld : sp.table.Held s.kernel p _ _ := h.held ho rfl
    rw [run_onSpace ho, change_mapSpace_of_space ho]
    refine Outcome.Meets.andThen (op_meets
      ((hf sp _ _ (h.take ho).2.1 hheld).mono ?_ ?_ fun _ hH => hH))
    · rintro after k ⟨hsound, htable, hb⟩
      have htable' : (Object.space after.1).table? = some sp.table := congrArg some htable
      obtain ⟨hkeeps, hscene⟩ := h.becomes ho htable' hsound hb
      exact .done ⟨⟨hkeeps.holds, hkeeps.good⟩, hscene⟩
    · exact fun _ k hb => h.shows_same ho rfl hb
  · rw [run_onSpace_of_no_space hspace, change_mapSpace_of_no_space hspace]
    exact .done ⟨h, rfl⟩

/-! ## Consuming an object -/

theorem run_consume (x : Object → Option (Act Unit)) : (consume i x).run s =
    match (s.object i).bind x with
    | some act => act.run (s.put i none)
    | none => .done () s := by
  unfold consume
  rw [Transition.run_bind, Transition.run_observe, andThen_done]
  cases (s.object i).bind x <;> rfl

/-- Giving back what was taken out of the books leaves the rest as it is. -/
theorem Keeps.op_keeps (h : s.Keeps p own) {x : Op Unit}
    (hx : ∃ k', x.run s.kernel = .done () k' ∧ k'.Holds p s.owned ∧
      s.kernel.ram.SameBlocks k'.ram s.owned) :
    ((op x).run s).Meets (fun _ s' => s'.Shows p s.scene) R H := by
  obtain ⟨k', hrun, hholds, hsame⟩ := hx
  refine op_meets ?_
  rw [hrun]
  exact .done (h.shows hholds hsame)

end Session

end SoftPaging
