import Mathlib
import SoftPaging.Proofs.Kernel.Meets

/-!
# What a transition answers

Some of what an operation answers does not depend on the state it was run in, not even on whether the
state is a sane one: the shape of a new object, or the flags of an entry. `Transition.Answers x Q` says
that each answer of `x` is one of `Q`, whatever the state; it says nothing of a run that is refused or
halts. The rules follow the ways of composing transitions.
-/

namespace SoftPaging

namespace Transition

open Outcome

variable {ε σ α β : Type} {P Q : α → Prop} {Q' : β → Prop}

/-- Whatever state the transition is run in, what it answers is one of `Q`. -/
def Answers (x : Transition ε σ α) (Q : α → Prop) : Prop :=
  ∀ s, (x.run s).Meets (fun a _ => Q a) (fun _ _ => True) fun _ => True

theorem Answers.of_done {x : Transition ε σ α} (h : x.Answers Q) {s s' : σ} {a : α}
    (hrun : x.run s = .done a s') : Q a := (h s).of_done hrun

theorem answers_any (x : Transition ε σ α) : x.Answers fun _ => True := by
  intro s
  cases x.run s with
  | done a s' => exact .done trivial
  | refused cause s' => exact .refused trivial
  | halted cause => exact .halted trivial

theorem answers_pure {a : α} (h : Q a) : (pure a : Transition ε σ α).Answers Q := fun _ => .done h

theorem answers_refuse (cause : ε) : (refuse cause : Transition ε σ α).Answers Q :=
  fun _ => .refused trivial

theorem answers_halt (cause : Halt) : (halt cause : Transition ε σ α).Answers Q :=
  fun _ => .halted trivial

/-- A pure computation answers what it comes to. -/
theorem answers_liftM {x : Except Halt α} (h : ∀ a, x = .ok a → Q a) :
    (liftM x : Transition ε σ α).Answers Q := by
  cases x with
  | ok a => exact answers_pure (h a rfl)
  | error cause => exact answers_halt cause

theorem Answers.mono {x : Transition ε σ α} (h : x.Answers P) (hQ : ∀ a, P a → Q a) :
    x.Answers Q :=
  fun s => (h s).mono (fun a _ => hQ a) (fun _ _ => id) fun _ => id

theorem Answers.bind {x : Transition ε σ α} {f : α → Transition ε σ β} (hx : x.Answers P)
    (hf : ∀ a, P a → (f a).Answers Q') : (x >>= f).Answers Q' :=
  fun s => Meets.bind (hx s) fun a s' ha => hf a ha s'

/-- What comes first does not matter when the answer is the same after all of it. -/
theorem answers_bind {x : Transition ε σ α} {f : α → Transition ε σ β}
    (hf : ∀ a, (f a).Answers Q') : (x >>= f).Answers Q' :=
  (answers_any x).bind fun a _ => hf a

/-- Cleaning up comes to no answer of its own. -/
theorem Answers.onRefusal {x : Transition ε σ α} (h : x.Answers Q)
    (cleanup : ε → Transition ε σ Unit) : (x.onRefusal cleanup).Answers Q := fun s =>
  Meets.onRefusal (h s) fun cause s' _ =>
    (answers_any (cleanup cause) s').mono (fun _ _ => id) (fun _ _ => id) fun _ => id

end Transition

end SoftPaging
