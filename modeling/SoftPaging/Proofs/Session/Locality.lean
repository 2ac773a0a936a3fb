import Mathlib
import SoftPaging.Proofs.Session.Footprint

/-!
# What a request leaves alone

A request works on the objects it names (`Request.Alters`) and on no other: an object at any other
place stays where it is, and the frames of its cells and tables are the same, byte for byte, whether
the request was granted or refused (`Sound.perform_leaves`). So the entries of a page table are its
own, whatever happens to the objects around it.

That the object stays is read off the request (`perform_stays`), and that its frames are the same
follows from what the request writes. A byte that the client stores itself is no exception: it may
change a page, but not the table that maps the page.
-/

namespace SoftPaging

open Outcome

namespace Request

/-- The request works on the object at place `i`, gives it back, or moves it into another one. -/
def Alters (i : Nat) : Request → Prop
  | nest j | setCell j _ | setElement j _ _ => j = i
  | setNested j inner => j = i ∨ inner = i
  | openSlot j _ | closeSlot j _ | mapPage j _ _ _ | writeProtect j _ | copyTable _ j => j = i
  | addRegion j _ _ _ | beginLoad j | endLoad j => j = i
  | fault j? _ _ => j? = some i
  | tearDown j | destroy j | release j => j = i
  | _ => False

theorem target?_ne {r : Request} {i : Nat} (h : ¬ r.Alters i) : r.target? ≠ some i := by
  intro htarget
  apply h
  cases r <;> simp_all [target?, Alters]

end Request

namespace Session

variable {p : FramePool} {s s' : Session} {i j : Nat} {o : Object} {t : PageTable} {α β : Type}

/-- The object at a place is where it was, and its cells and tables are the same. -/
structure Leaves (s : Session) (i : Nat) (o : Object) (s' : Session) : Prop where
  object_eq : s'.object i = some o
  same : ∀ f ∈ o.skeletonIn s.kernel.ram, s.kernel.ram.SameFrame s'.kernel.ram f

namespace Leaves

theorem shows (h : s.Leaves i o s') (hgood : o.Good s.kernel.ram) (ht : o.table? = some t) :
    t.Shows s'.kernel.ram (t.mapIn s.kernel.ram) := by
  refine (hgood.shows ht).congr fun f hf => h.same f ?_
  rw [Object.skeletonIn_of_table? ht]
  exact hf

theorem mapIn_eq (h : s.Leaves i o s') (hgood : o.Good s.kernel.ram) (ht : o.table? = some t) :
    t.mapIn s'.kernel.ram = t.mapIn s.kernel.ram := (h.shows hgood ht).mapIn_eq

end Leaves

/-! ## Places -/

/-- An object is at its place still, however an act ends. -/
abbrev Stays (i : Nat) (o : Object) (out : Outcome Refusal Session α) : Prop :=
  out.Meets (fun _ s' => s'.object i = some o) (fun _ s' => s'.object i = some o) fun _ => True

section Places

variable (ho : s.object i = some o)
include ho

theorem stays_op (x : Op α) : Stays i o ((op x).run s) := by
  apply op_meets
  cases x.run s.kernel with
  | done a k => exact .done ho
  | refused cause k => exact .refused ho
  | halted cause => exact .halted trivial

theorem stays_op_bind (x : Op α) {f : α → Act β}
    (hf : ∀ a s', s'.object i = some o → Stays i o ((f a).run s')) :
    Stays i o ((op x >>= f).run s) :=
  Transition.Meets.bind (stays_op ho x) hf

theorem object_keep (o' : Object) : (s.keep o').object i = some o := by
  have hget := object_eq_some.1 ho
  obtain ⟨hi, -⟩ := List.getElem?_eq_some_iff.1 hget
  refine object_eq_some.2 ?_
  unfold Session.keep
  rw [List.getElem?_append_left hi, hget]

/-- Making an object adds a place. -/
theorem stays_make (object : α → Object) (x : Op α) : Stays i o ((make object x).run s) :=
  stays_op_bind ho x fun a _ hs' => .done (object_keep hs' (object a))

theorem stays_onTable (f : PageTable → Op Unit) : Stays i o ((onTable j f).run s) := by
  rw [run_onTable]
  cases (s.object j).bind Object.table? with
  | none => exact .done ho
  | some t => exact stays_op ho (f t)

theorem stays_onSpace (hne : j ≠ i)
    (f : AddressSpace → Mmu TlbBuffer → Op (AddressSpace × Mmu TlbBuffer)) :
    Stays i o ((onSpace j f).run s) := by
  rcases s.space_cases j with ⟨sp, ho'⟩ | hspace
  · rw [run_onSpace ho']
    refine Outcome.Meets.andThen ((stays_op ho (f sp s.mmu)).mono ?_ (fun _ _ hR => hR) fun _ hH => hH)
    intro after s' hs'
    have hput : (s'.put j (some (.space after.1))).object i = some o := by
      rw [object_put_of_ne hne, hs']
    exact .done hput
  · rw [run_onSpace_of_no_space hspace]
    exact .done ho

theorem stays_consume (hne : j ≠ i) {x : Object → Option (Act Unit)}
    (hx : ∀ o' act s', x o' = some act → s'.object i = some o → Stays i o (act.run s')) :
    Stays i o ((consume j x).run s) := by
  rw [run_consume]
  cases hact : (s.object j).bind x with
  | none => exact .done ho
  | some act =>
    obtain ⟨o', -, hx'⟩ := Option.bind_eq_some_iff.1 hact
    apply hx o' act (s.put j none) hx'
    rw [object_put_of_ne hne, ho]

theorem stays_newCell (kind : CellKind) (d : Datum) :
    Stays i o ((perform (.newCell kind d)).run s) := by
  rw [run_newCell]
  cases d.value? kind with
  | none => exact .done ho
  | some v => exact stays_make ho _ _

theorem stays_setCell (d : Datum) : Stays i o ((perform (.setCell j d)).run s) := by
  rcases run_setCell_cases s j d with hrun | ⟨kind, c, v, -, -, hrun⟩
  · rw [hrun s rfl]
    exact .done ho
  · rw [hrun s rfl]
    exact stays_op ho _

theorem stays_setElement (index : Nat) (w : UInt16) :
    Stays i o ((perform (.setElement j index w)).run s) := by
  rcases run_setElement_cases s j index w with hrun | ⟨c, -, hrun⟩
  · rw [hrun s rfl]
    exact .done ho
  · rw [hrun s rfl]
    exact stays_op ho _

theorem stays_copyTable (target : Nat) : Stays i o ((perform (.copyTable j target)).run s) := by
  by_cases hsame : j = target
  · subst hsame
    rw [run_copyTable_self]
    exact .done ho
  · rw [run_copyTable hsame]
    cases (s.object j).bind Object.table? with
    | none => exact .done ho
    | some t => exact stays_onTable ho _

theorem stays_copySpace : Stays i o ((perform (.copySpace j)).run s) := by
  rcases s.space_cases j with ⟨sp, ho'⟩ | hspace
  · rw [run_copySpace ho']
    exact stays_make ho _ _
  · rw [run_copySpace_of_no_space hspace]
    exact .done ho

/-! The requests that consume an object leave the others at their places. -/

theorem stays_nest (hne : j ≠ i) : Stays i o ((perform (.nest j)).run s) := by
  apply stays_consume ho hne
  intro o' act s' hact hs'
  cases o' with
  | table t => cases hact
  | space sp => cases hact
  | cell kind c =>
    obtain rfl := Option.some.inj hact
    exact stays_make hs' _ _

theorem stays_setNested {inner : Nat} (hne : inner ≠ i) :
    Stays i o ((perform (.setNested j inner)).run s) := by
  rcases run_setNested_cases s j inner with ⟨-, hrun⟩ | ⟨kind, c, -, hrun⟩
  · rw [hrun s rfl]
    exact .done ho
  · rw [hrun s rfl]
    apply stays_consume ho hne
    intro o' act s' hact hs'
    obtain ⟨c', -, rfl⟩ := Option.map_eq_some_iff.1 hact
    exact stays_op hs' _

theorem stays_tearDown (hne : j ≠ i) : Stays i o ((perform (.tearDown j)).run s) := by
  apply stays_consume ho hne
  intro o' act s' hact hs'
  cases o' with
  | cell kind c => cases hact
  | space sp => cases hact
  | table t =>
    obtain rfl := Option.some.inj hact
    exact stays_op hs' _

theorem stays_destroy (hne : j ≠ i) : Stays i o ((perform (.destroy j)).run s) := by
  apply stays_consume ho hne
  intro o' act s' hact hs'
  cases o' with
  | cell kind c => cases hact
  | table t => cases hact
  | space sp =>
    obtain rfl := Option.some.inj hact
    exact stays_op hs' _

theorem stays_release (hne : j ≠ i) : Stays i o ((perform (.release j)).run s) := by
  apply stays_consume ho hne
  intro o' act s' hact hs'
  obtain rfl := Option.some.inj hact
  exact stays_op hs' _

/-- An object stays at its place when a request does not work on it. -/
theorem perform_stays {r : Request} (hi : ¬ r.Alters i) : Stays i o ((perform r).run s) := by
  cases r with
  | allocate count | allocateCleared count => exact stays_op_bind ho _ fun _ _ hs' => .done hs'
  | allocatePages count =>
    apply stays_op_bind ho
    intro v? s' hs'
    cases v? with
    | none => exact .done hs'
    | some v => exact stays_op_bind hs' _ fun _ _ hs'' => .done hs''
  | free a =>
    have hfreed := Transition.Meets.discard (stays_op ho (Op.free a))
    exact Transition.Meets.bind hfreed fun _ _ hs' => .done hs'
  | mustFree a => exact stays_op_bind ho _ fun _ _ hs' => .done hs'
  | freePages v =>
    exact stays_op_bind ho _ fun _ _ hs' => stays_op_bind hs' _ fun _ _ hs'' => .done hs''
  | poke a v => exact stays_op ho _
  | newCell kind d => exact stays_newCell ho kind d
  | nest j => exact stays_nest ho hi
  | setCell j d => exact stays_setCell ho d
  | setNested j inner => exact stays_setNested ho fun heq => hi (.inr heq)
  | setElement j index w => exact stays_setElement ho index w
  | newTable | newSpace => exact stays_make ho _ _
  | openSlot j slot | closeSlot j slot | mapPage j slot entry writable | writeProtect j a
  | store j a v => exact stays_onTable ho _
  | copyTable j target => exact stays_copyTable ho target
  | tearDown j => exact stays_tearDown ho hi
  | destroy j => exact stays_destroy ho hi
  | release j => exact stays_release ho hi
  | addRegion j start size permissions => exact stays_onSpace ho hi _
  | beginLoad j | endLoad j => exact stays_onSpace ho hi _
  | fault j? code a =>
    cases j? with
    | none => exact stays_op_bind ho _ fun _ _ hs' => .done hs'
    | some j => exact stays_onSpace ho (fun heq => hi (congrArg some heq)) _
  | copySpace j => exact stays_copySpace ho
  | drive f => exact .done ho

end Places

/-! ## Frames -/

/-- An act leaves an object alone, however it ends. -/
abbrev Spares (s : Session) (i : Nat) (o : Object) (out : Outcome Refusal Session α) : Prop :=
  out.Meets (fun _ s' => s.Leaves i o s') (fun _ s' => s.Leaves i o s') fun _ => True

section Frames

variable (ho : s.object i = some o)
include ho

/-- A byte that is written outside the skeletons changes no cell and no table. -/
theorem Sound.spares_poke (h : s.Sound p) {a : PhysicalAddress}
    (hskeleton : a.number.val ∉ s.skeleton) (v : UInt8) :
    s.Spares i o ((perform (.poke a v)).run s) := by
  unfold perform
  refine op_meets (Transition.Meets.bind (P := fun _ k => k = s.kernel)
    ((h.holds_owned.reachFrame_meets a).mono (fun _ _ hQ => hQ) (fun _ _ hR => hR.elim)
      fun _ _ => trivial) ?_)
  rintro _ _ rfl
  have hoff := s.kernel.ram.sameOff_store v (Address.number_val a).symm
  refine .done ⟨ho, fun f hf n hn => hoff.byte_eq n fun heq => hskeleton ?_⟩
  rw [← heq, hn]
  exact ⟨o, List.mem_of_getElem? (object_eq_some.1 ho), hf⟩

/-- A byte that is stored through a page table changes no table, be it this one. -/
theorem Sound.spares_store (h : s.Sound p) (a : VirtualAddress) (v : UInt8) :
    s.Spares i o ((perform (.store j a v)).run s) := by
  have hrun : (perform (.store j a v)).run s = _ := run_onTable _
  rw [hrun]
  cases htable : (s.object j).bind Object.table? with
  | none => exact .done ⟨ho, fun f _ => Ram.SameFrame.refl _ f⟩
  | some t =>
    obtain ⟨o', ho', ht⟩ := Option.bind_eq_some_iff.1 htable
    have hheld := h.held ho' ht
    refine op_meets (Outcome.Meets.mono (Q := fun _ k => ∀ f ∈ o.skeletonIn s.kernel.ram,
      s.kernel.ram.SameFrame k.ram f) ?_ (fun _ _ hsame => ⟨ho, hsame⟩) (fun _ _ hR => hR)
        fun _ hH => hH)
    by_cases hne : j = i
    · subst hne
      obtain rfl := Option.some.inj (ho'.symm.trans ho)
      rw [Object.skeletonIn_of_table? ht]
      exact hheld.storeAt_skeleton a v
    · refine (hheld.storeAt_becomes a v).mono ?_ (fun _ _ hR => hR) fun _ hH => hH
      intro _ k hb f hf
      have hput : (s.put j none).object i = some o := by rw [object_put_of_ne hne, ho]
      exact hb.same f (mem_owned_of_mem hput (o.skeleton_subset _ hf))

/-- A request leaves alone every object that it does not work on. -/
theorem Sound.perform_leaves (h : s.Sound p) {r : Request} (hr : r.Permitted p s)
    (hi : ¬ r.Alters i) : s.Spares i o ((perform r).run s) := by
  by_cases hstores : r.Stores
  · cases r with
    | poke a v => exact h.spares_poke ho hr.2 v
    | store j a v => exact h.spares_store ho a v
    | _ => exact hstores.elim
  · have hsame {s' : Session} (hwrote : s.Wrote p (s.skeletonAt r.target?) s') :
        ∀ f ∈ o.skeletonIn s.kernel.ram, s.kernel.ram.SameFrame s'.kernel.ram f := by
      intro f hf
      have hmem := o.skeleton_subset _ hf
      exact hwrote.sameFrame h (mem_owned_of_mem ho hmem)
        (h.not_mem_skeletonAt (Request.target?_ne hi) ho hmem)
    refine ((perform_stays ho hi).and (h.perform_confines hstores)).mono ?_ ?_ fun _ _ => trivial
    · rintro _ s' ⟨hobject, hwrote⟩
      exact ⟨hobject, hsame hwrote⟩
    · rintro _ s' ⟨hobject, hwrote⟩
      exact ⟨hobject, hsame hwrote⟩

end Frames

end Session

end SoftPaging
