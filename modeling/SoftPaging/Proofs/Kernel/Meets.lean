import Mathlib
import SoftPaging.Kernel.Transition

/-!
# What an outcome meets

A transition has three endings, and a statement about a run of it says what holds at each of them.
`Outcome.Meets o Q R H` says it of an outcome: `Q` of the answer and the state when it is done, `R`
of the cause and the state when it is refused, `H` of the cause when the machine halts. An operation
that cannot halt meets its statement with `H := never`.

The rules below follow the ways of composing transitions: `Meets.bind` for `do`, `Meets.onRefusal`
for cleaning up, and `Meets.forM` for a loop, whose invariant speaks about the elements that are
still to come.
-/

namespace SoftPaging

/-- What is said of the halts of an operation that does not halt. -/
def never (_ : Halt) : Prop := False

namespace Outcome

variable {ε σ α β : Type}

/-- The outcome is done with `Q`, refused with `R`, or halted with `H`. -/
inductive Meets (Q : α → σ → Prop) (R : ε → σ → Prop) (H : Halt → Prop) : Outcome ε σ α → Prop
  | done {a s} (h : Q a s) : Meets Q R H (.done a s)
  | refused {cause s} (h : R cause s) : Meets Q R H (.refused cause s)
  | halted {cause} (h : H cause) : Meets Q R H (.halted cause)

namespace Meets

variable {Q Q' : α → σ → Prop} {R R' : ε → σ → Prop} {H H' : Halt → Prop} {o : Outcome ε σ α}

theorem of_done {a : α} {s : σ} (h : o.Meets Q R H) (ho : o = .done a s) : Q a s := by
  subst ho
  cases h with
  | done h => exact h

theorem of_refused {cause : ε} {s : σ} (h : o.Meets Q R H) (ho : o = .refused cause s) :
    R cause s := by
  subst ho
  cases h with
  | refused h => exact h

theorem of_halted {cause : Halt} (h : o.Meets Q R H) (ho : o = .halted cause) : H cause := by
  subst ho
  cases h with
  | halted h => exact h

/-- A statement follows from one that says more at each ending. -/
theorem mono (h : o.Meets Q R H) (hQ : ∀ a s, Q a s → Q' a s) (hR : ∀ c s, R c s → R' c s)
    (hH : ∀ c, H c → H' c) : o.Meets Q' R' H' := by
  cases h with
  | done h => exact .done (hQ _ _ h)
  | refused h => exact .refused (hR _ _ h)
  | halted h => exact .halted (hH _ h)

/-- Two statements about one outcome hold together. -/
theorem and (h : o.Meets Q R H) (h' : o.Meets Q' R' H') :
    o.Meets (fun a s => Q a s ∧ Q' a s) (fun c s => R c s ∧ R' c s) (fun c => H c ∧ H' c) := by
  cases h with
  | done h => exact .done ⟨h, h'.of_done rfl⟩
  | refused h => exact .refused ⟨h, h'.of_refused rfl⟩
  | halted h => exact .halted ⟨h, h'.of_halted rfl⟩

/-- An outcome that neither is refused nor halts is done. -/
theorem exists_done (h : o.Meets Q (fun _ _ => False) never) : ∃ a s, o = .done a s ∧ Q a s := by
  cases h with
  | done h => exact ⟨_, _, rfl, h⟩
  | refused h => exact h.elim
  | halted h => exact h.elim

/-- An outcome that is done where a condition holds and refused where it does not. -/
theorem done_iff {C : Prop} (h : o.Meets (fun _ _ => C) (fun _ _ => ¬ C) never) :
    (∃ a s, o = .done a s) ↔ C := by
  cases h with
  | done h => exact iff_of_true ⟨_, _, rfl⟩ h
  | refused h => exact iff_of_false (fun ⟨_, _, hdone⟩ => by cases hdone) h
  | halted h => exact h.elim

theorem refused_iff {C : Prop} {cause : ε}
    (h : o.Meets (fun _ _ => C) (fun c _ => c = cause ∧ ¬ C) never) :
    (∃ s, o = .refused cause s) ↔ ¬ C := by
  cases h with
  | done h => exact iff_of_false (fun ⟨_, hrefused⟩ => by cases hrefused) (not_not.2 h)
  | refused h =>
    obtain ⟨rfl, hC⟩ := h
    exact iff_of_true ⟨_, rfl⟩ hC
  | halted h => exact h.elim

theorem andThen {next : α → σ → Outcome ε σ β} {Q' : β → σ → Prop}
    (h : o.Meets (fun a s => (next a s).Meets Q' R H) R H) : (o.andThen next).Meets Q' R H := by
  cases h with
  | done h => exact h
  | refused h => exact .refused h
  | halted h => exact .halted h

end Meets

end Outcome

namespace Transition

open Outcome

variable {ε σ α β : Type} {R : ε → σ → Prop} {H : Halt → Prop}

/-- A composed transition meets what its second half meets after the first. -/
theorem Meets.bind {x : Transition ε σ α} {f : α → Transition ε σ β} {s : σ}
    {P : α → σ → Prop} {Q : β → σ → Prop} (hx : (x.run s).Meets P R H)
    (hf : ∀ a s', P a s' → ((f a).run s').Meets Q R H) : ((x >>= f).run s).Meets Q R H := by
  rw [run_bind]
  exact Outcome.Meets.andThen (hx.mono hf (fun _ _ h => h) (fun _ h => h))

/-- A transition of which only the effect matters. -/
theorem Meets.discard {x : Transition ε σ α} {s : σ} {Q : σ → Prop}
    (hx : (x.run s).Meets (fun _ => Q) R H) : ((discard x).run s).Meets (fun _ => Q) R H := by
  rw [run_discard]
  exact Outcome.Meets.andThen (hx.mono (fun _ _ h => .done h) (fun _ _ h => h) (fun _ h => h))

theorem run_onRefusal (x : Transition ε σ α) (cleanup : ε → Transition ε σ Unit) (s : σ) :
    (x.onRefusal cleanup).run s =
      match x.run s with
      | .done a s' => .done a s'
      | .refused cause s' => ((cleanup cause).run s').andThen fun _ s'' => .refused cause s''
      | .halted cause => .halted cause := by
  unfold onRefusal
  rw [run_bind, run_attempt]
  cases x.run s <;> rfl

/-- A transition that cleans up is done as before, and refused as its cleaning up leaves things. -/
theorem Meets.onRefusal {x : Transition ε σ α} {cleanup : ε → Transition ε σ Unit} {s : σ}
    {Q : α → σ → Prop} {R' : ε → σ → Prop} (hx : (x.run s).Meets Q R' H)
    (hc : ∀ c s', R' c s' →
      ((cleanup c).run s').Meets (fun _ s'' => R c s'') R H) :
    ((x.onRefusal cleanup).run s).Meets Q R H := by
  rw [run_onRefusal]
  cases hrun : x.run s with
  | done a s' => exact .done (hx.of_done hrun)
  | refused cause s' =>
    exact Outcome.Meets.andThen ((hc cause s' (hx.of_refused hrun)).mono
      (fun _ _ hR => .refused hR) (fun _ _ hR => hR) (fun _ hH => hH))
  | halted cause => exact .halted (hx.of_halted hrun)

/-- A loop keeps an invariant that speaks about the elements still to come. -/
theorem Meets.forM {f : β → Transition ε σ PUnit} {I : List β → σ → Prop}
    (step : ∀ x xs s, I (x :: xs) s → ((f x).run s).Meets (fun _ s' => I xs s') R H) :
    ∀ xs s, I xs s → ((xs.forM f).run s).Meets (fun _ s' => I [] s') R H
  | [], _, h => .done h
  | x :: xs, s, h =>
    -- `(x :: xs).forM f` is `f x >>= fun _ => xs.forM f` by definition
    Meets.bind (step x xs s h) fun _ s' hs' => Meets.forM step xs s' hs'

/-- A loop that does nothing at any element does nothing. -/
theorem run_forM_of_idle {f : β → Transition ε σ PUnit} {s : σ} :
    ∀ {xs : List β}, (∀ x ∈ xs, (f x).run s = .done ⟨⟩ s) → (xs.forM f).run s = .done ⟨⟩ s
  | [], _ => rfl
  | x :: xs, h => by
    obtain ⟨hx, hxs⟩ := List.forall_mem_cons.1 h
    change (f x >>= fun _ => xs.forM f).run s = _
    rw [run_bind, hx, andThen_done, run_forM_of_idle hxs]

/-- Picking elements by a test that only answers is picking them by the answers. -/
theorem run_filterM_of_idle {f : β → Transition ε σ Bool} {g : β → Bool} {s : σ} {xs : List β}
    (h : ∀ x ∈ xs, (f x).run s = .done (g x) s) :
    (xs.filterM f).run s = .done (xs.filter g) s := by
  have haux : ∀ {ys : List β} (acc : List β), (∀ x ∈ ys, (f x).run s = .done (g x) s) →
      (ys.filterAuxM f acc).run s = .done ((ys.filter g).reverse ++ acc) s := by
    intro ys
    induction ys with
    | nil => exact fun _ _ => rfl
    | cons y ys ih =>
      intro acc hys
      obtain ⟨hy, hrest⟩ := List.forall_mem_cons.1 hys
      unfold List.filterAuxM
      rw [run_bind, hy, andThen_done, ih _ hrest]
      cases hg : g y with
      | true => simp [List.filter_cons_of_pos hg]
      | false => simp [hg]
  unfold List.filterM
  rw [run_bind, haux [] h, andThen_done, run_pure, List.append_nil, List.reverse_reverse]

/-- A loop over all indices, none of which is refused or halts. -/
theorem forM_finRange_done {n : Nat} {f : Fin n → Transition ε σ PUnit}
    {I : List (Fin n) → σ → Prop}
    (step : ∀ i is s, I (i :: is) s → ∃ s', (f i).run s = .done ⟨⟩ s' ∧ I is s') {s : σ}
    (h : I (List.finRange n) s) :
    ∃ s', ((List.finRange n).forM f).run s = .done ⟨⟩ s' ∧ I [] s' := by
  have hmeets : ∀ i is s, I (i :: is) s →
      ((f i).run s).Meets (fun _ s' => I is s') (fun _ _ => False) never := by
    intro i is s hI
    obtain ⟨s', hrun, hI'⟩ := step i is s hI
    rw [hrun]
    exact .done hI'
  obtain ⟨⟨⟩, s', hrun, hI⟩ := (Meets.forM (I := I) hmeets (List.finRange n) s h).exists_done
  exact ⟨s', hrun, hI⟩

end Transition

end SoftPaging
