import Mathlib
import SoftPaging.Proofs.Kernel.Meets

/-!
# Two runs side by side

A transition is run from two states, and the runs are compared. `Outcome.Matches S R o o'` says that
two outcomes are of one kind, with the same answer or the same cause, and that their states are
related: by `S` when they are done, by `R` when they are refused. `Transition.Tracks x S s s'` is the
usual case, in which the runs of `x` keep to one relation `S`, and `Transition.ReadsAlike x s s'` that
of a transition that only looks.

The rules follow the ways of composing transitions, as those of `Outcome.Meets` do. What holds of the
first run alone need not be shown again: a rule hands on how that run went, and what is known of it
applies.
-/

namespace SoftPaging

namespace Outcome

variable {ε σ α β : Type}

/-- The outcomes are of one kind, say the same, and leave related states. -/
inductive Matches (S : α → σ → σ → Prop) (R : ε → σ → σ → Prop) :
    Outcome ε σ α → Outcome ε σ α → Prop
  | done {a s s'} (h : S a s s') : Matches S R (.done a s) (.done a s')
  | refused {cause s s'} (h : R cause s s') : Matches S R (.refused cause s) (.refused cause s')
  | halted (cause) : Matches S R (.halted cause) (.halted cause)

namespace Matches

variable {S S' : α → σ → σ → Prop} {R R' : ε → σ → σ → Prop} {o o' : Outcome ε σ α}

theorem exists_done {a : α} {s : σ} (h : o.Matches S R o') (ho : o = .done a s) :
    ∃ s', o' = .done a s' ∧ S a s s' := by
  subst ho
  cases h with
  | done h => exact ⟨_, rfl, h⟩

theorem exists_refused {cause : ε} {s : σ} (h : o.Matches S R o') (ho : o = .refused cause s) :
    ∃ s', o' = .refused cause s' ∧ R cause s s' := by
  subst ho
  cases h with
  | refused h => exact ⟨_, rfl, h⟩

/-- The states may be related by less, also by what follows from how the first run ended. -/
theorem mono (h : o.Matches S R o') (hS : ∀ a s s', o = .done a s → S a s s' → S' a s s')
    (hR : ∀ c s s', o = .refused c s → R c s s' → R' c s s') : o.Matches S' R' o' := by
  cases h with
  | done h => exact .done (hS _ _ _ rfl h)
  | refused h => exact .refused (hR _ _ _ rfl h)
  | halted cause => exact .halted cause

theorem andThen {P : β → σ → σ → Prop} {next : α → σ → Outcome ε σ β}
    (h : o.Matches S R o')
    (hnext : ∀ a s s', o = .done a s → S a s s' → (next a s).Matches P R (next a s')) :
    (o.andThen next).Matches P R (o'.andThen next) := by
  cases h with
  | done h => exact hnext _ _ _ rfl h
  | refused h => exact .refused h
  | halted cause => exact .halted cause

end Matches

/-- The outcomes are of one kind and say the same. -/
abbrev SameAnswer (o o' : Outcome ε σ α) : Prop :=
  o.Matches (fun _ _ _ => True) (fun _ _ _ => True) o'

theorem Matches.sameAnswer {S : α → σ → σ → Prop} {R : ε → σ → σ → Prop} {o o' : Outcome ε σ α}
    (h : o.Matches S R o') : o.SameAnswer o' :=
  h.mono (fun _ _ _ _ _ => trivial) fun _ _ _ _ _ => trivial

/-- What is known of the one state in which an outcome is done. -/
theorem of_exists_done {o : Outcome ε σ α} {a : α} {s : σ} {Q : σ → Prop}
    (h : ∃ s', o = .done a s' ∧ Q s') (ho : o = .done a s) : Q s := by
  obtain ⟨s', hdone, hQ⟩ := h
  obtain ⟨-, rfl⟩ := Outcome.done.inj (ho.symm.trans hdone)
  exact hQ

end Outcome

namespace Transition

open Outcome

variable {ε σ α β : Type} {s s' : σ}

/-- From two states the transition comes to the same, and leaves states related by `S`. -/
def Tracks (x : Transition ε σ α) (S : σ → σ → Prop) (s s' : σ) : Prop :=
  (x.run s).Matches (fun _ => S) (fun _ => S) (x.run s')

/-- A composed transition comes to the same when its second half does, wherever the first led. -/
theorem Matches.bind {x : Transition ε σ α} {f : α → Transition ε σ β} {P : α → σ → σ → Prop}
    {Q : β → σ → σ → Prop} {R : ε → σ → σ → Prop} (hx : (x.run s).Matches P R (x.run s'))
    (hf : ∀ a s₁ s₁', x.run s = .done a s₁ → P a s₁ s₁' →
      ((f a).run s₁).Matches Q R ((f a).run s₁')) :
    ((x >>= f).run s).Matches Q R ((x >>= f).run s') := by
  rw [run_bind, run_bind]
  exact hx.andThen hf

namespace Tracks

variable {S : σ → σ → Prop} {x : Transition ε σ α}

theorem sameAnswer (h : x.Tracks S s s') : (x.run s).SameAnswer (x.run s') :=
  Outcome.Matches.sameAnswer h

theorem pure (a : α) (h : S s s') : (pure a : Transition ε σ α).Tracks S s s' := .done h

theorem refuse (cause : ε) (h : S s s') : (refuse cause : Transition ε σ α).Tracks S s s' :=
  .refused h

theorem halt (cause : Halt) : (halt cause : Transition ε σ α).Tracks S s s' := .halted cause

theorem change {f : σ → σ} (h : S (f s) (f s')) :
    (change f : Transition ε σ Unit).Tracks S s s' := .done h

/-- What two states agree on is observed alike. -/
theorem observe {f : σ → α} (h : S s s') (hf : f s' = f s) :
    (observe f : Transition ε σ α).Tracks S s s' := by
  unfold Tracks
  rw [run_observe, run_observe, hf]
  exact .done h

/-- A computation that knows nothing of the state. -/
theorem lift (e : Except Halt α) (h : S s s') : (liftM e : Transition ε σ α).Tracks S s s' := by
  cases e with
  | ok a => exact .done h
  | error cause => exact .halted cause

theorem bind {f : α → Transition ε σ β} (hx : x.Tracks S s s')
    (hf : ∀ a s₁ s₁', x.run s = .done a s₁ → S s₁ s₁' → (f a).Tracks S s₁ s₁') :
    (x >>= f).Tracks S s s' :=
  Matches.bind hx hf

/-- A first half of which both runs are known, and that changes nothing. -/
theorem bind_of_run {f : α → Transition ε σ β} {a : α} (hx : x.run s = .done a s)
    (hx' : x.run s' = .done a s') (hf : (f a).Tracks S s s') : (x >>= f).Tracks S s s' := by
  unfold Tracks
  rw [run_bind, run_bind, hx, hx']
  exact hf

theorem discard (hx : x.Tracks S s s') : (discard x).Tracks S s s' := by
  unfold Tracks
  rw [run_discard, run_discard]
  exact hx.andThen fun _ _ _ _ h => .done h

theorem attempt (hx : x.Tracks S s s') : x.attempt.Tracks S s s' := by
  unfold Tracks at *
  rw [run_attempt, run_attempt]
  generalize x.run s = o, x.run s' = o' at hx
  cases hx with
  | done h => exact .done h
  | refused h => exact .done h
  | halted cause => exact .halted cause

/-- Cleaning up after a refusal. -/
theorem onRefusal {cleanup : ε → Transition ε σ Unit} (hx : x.Tracks S s s')
    (hc : ∀ c s₁ s₁', x.run s = .refused c s₁ → S s₁ s₁' → (cleanup c).Tracks S s₁ s₁') :
    (x.onRefusal cleanup).Tracks S s s' := by
  unfold Tracks at *
  rw [run_onRefusal, run_onRefusal]
  generalize x.run s = o, x.run s' = o' at hx hc
  cases hx with
  | done h => exact .done h
  | refused h => exact (hc _ _ _ rfl h).andThen fun _ _ _ _ h => .refused h
  | halted cause => exact .halted cause

end Tracks

/-- What cleans up when it is refused was done without it. -/
theorem done_of_onRefusal {x : Transition ε σ α} {cleanup : ε → Transition ε σ Unit} {a : α}
    (h : (x.onRefusal cleanup).run s = .done a s') : x.run s = .done a s' := by
  rw [run_onRefusal] at h
  cases hrun : x.run s with
  | done b s₁ =>
    rw [hrun] at h
    exact h
  | refused cause s₁ =>
    rw [hrun] at h
    dsimp only at h
    cases hclean : (cleanup cause).run s₁ <;> rw [hclean] at h <;> cases h
  | halted cause =>
    rw [hrun] at h
    cases h

/-- A loop comes to the same when each round does, from the states that the first run is led to. Its
invariant speaks about the elements still to come, as in `Meets.forM`. -/
theorem Matches.forM {f : β → Transition ε σ PUnit} {I : List β → σ → Prop} {S : σ → σ → Prop}
    (step : ∀ x xs s s', I (x :: xs) s → S s s' → (f x).Tracks S s s')
    (next : ∀ x xs s s₁, I (x :: xs) s → (f x).run s = .done ⟨⟩ s₁ → I xs s₁) :
    ∀ xs s s', I xs s → S s s' →
      ((xs.forM f).run s).Matches (fun _ s₁ s₁' => I [] s₁ ∧ S s₁ s₁') (fun _ => S)
        ((xs.forM f).run s')
  | [], _, _, hI, h => .done ⟨hI, h⟩
  | x :: xs, s, s', hI, h =>
    Matches.bind (step x xs s s' hI h) fun _ s₁ s₁' hrun h₁ =>
      Matches.forM step next xs s₁ s₁' (next x xs s s₁ hI hrun) h₁

/-! ## Transitions that only look -/

/-- From both states the transition comes to the same, and it changes neither. -/
def ReadsAlike (x : Transition ε σ α) (s s' : σ) : Prop :=
  x.Tracks (fun t t' => t = s ∧ t' = s') s s'

namespace ReadsAlike

variable {x : Transition ε σ α}

theorem pure (a : α) : (pure a : Transition ε σ α).ReadsAlike s s' := .done ⟨rfl, rfl⟩

theorem refuse (cause : ε) : (refuse cause : Transition ε σ α).ReadsAlike s s' :=
  .refused ⟨rfl, rfl⟩

theorem halt (cause : Halt) : (halt cause : Transition ε σ α).ReadsAlike s s' := .halted cause

theorem lift (e : Except Halt α) : (liftM e : Transition ε σ α).ReadsAlike s s' :=
  Tracks.lift e ⟨rfl, rfl⟩

theorem observe {f : σ → α} (hf : f s' = f s) : (observe f : Transition ε σ α).ReadsAlike s s' :=
  Tracks.observe ⟨rfl, rfl⟩ hf

theorem of_run {a : α} (hx : x.run s = .done a s) (hx' : x.run s' = .done a s') :
    x.ReadsAlike s s' := by
  unfold ReadsAlike Tracks
  rw [hx, hx']
  exact .done ⟨rfl, rfl⟩

/-- What comes after looking comes to the same if it does from where it was. -/
theorem andThen {f : α → Transition ε σ β} {Q : β → σ → σ → Prop} {R : ε → σ → σ → Prop}
    (hx : x.ReadsAlike s s') (hR : ∀ cause, R cause s s')
    (hf : ∀ a, x.run s = .done a s → ((f a).run s).Matches Q R ((f a).run s')) :
    ((x >>= f).run s).Matches Q R ((x >>= f).run s') := by
  refine Matches.bind (Outcome.Matches.mono hx (fun _ _ _ _ h => h) ?_) ?_
  · rintro cause _ _ - ⟨rfl, rfl⟩
    exact hR cause
  · rintro a _ _ hrun ⟨rfl, rfl⟩
    exact hf a hrun

theorem bind {f : α → Transition ε σ β} (hx : x.ReadsAlike s s')
    (hf : ∀ a, x.run s = .done a s → (f a).ReadsAlike s s') : (x >>= f).ReadsAlike s s' :=
  hx.andThen (fun _ => ⟨rfl, rfl⟩) hf

theorem discard (hx : x.ReadsAlike s s') : (discard x).ReadsAlike s s' := Tracks.discard hx

theorem sameAnswer (h : x.ReadsAlike s s') : (x.run s).SameAnswer (x.run s') :=
  Tracks.sameAnswer h

/-- Looking keeps to every relation. -/
theorem tracks {S : σ → σ → Prop} (hx : x.ReadsAlike s s') (h : S s s') : x.Tracks S s s' := by
  refine Outcome.Matches.mono hx ?_ ?_
  · rintro a _ _ - ⟨rfl, rfl⟩
    exact h
  · rintro cause _ _ - ⟨rfl, rfl⟩
    exact h

theorem tracks_bind {f : α → Transition ε σ β} {S : σ → σ → Prop} (hx : x.ReadsAlike s s')
    (h : S s s') (hf : ∀ a, x.run s = .done a s → (f a).Tracks S s s') :
    (x >>= f).Tracks S s s' :=
  hx.andThen (fun _ => h) hf

end ReadsAlike

end Transition

end SoftPaging
