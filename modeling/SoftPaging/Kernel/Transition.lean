import SoftPaging.Error

/-!
# Transitions

An operation of the memory manager is a `Transition`: it takes a state and comes to one of three
outcomes.

* It is `done`, with an answer and the state it left.
* It is `refused` for a cause, and again leaves a state; what it did before it was refused stays.
* The machine is `halted`. There is no state then, because nothing runs that could see it.

Transitions are composed with `do`. What a composed transition comes to is read off `run_bind`,
`run_pure` and the other `run` lemmas, one for each way of making a transition; with them `simp` runs
a transition on a state without unfolding anything.
-/

namespace SoftPaging

/-- What a transition comes to. -/
inductive Outcome (ε σ α : Type) where
  | done (answer : α) (state : σ)
  | refused (cause : ε) (state : σ)
  | halted (cause : Halt)
deriving DecidableEq, Repr

/-- Goes on from an outcome that is done; the other outcomes stay as they are. -/
@[always_inline, inline] def Outcome.andThen {ε σ α β : Type} (o : Outcome ε σ α)
    (next : α → σ → Outcome ε σ β) : Outcome ε σ β :=
  match o with
  | .done a s => next a s
  | .refused cause s => .refused cause s
  | .halted cause => .halted cause

/-- A step from a state of type `σ`, which answers an `α` or may be refused for a cause `ε`. -/
def Transition (ε σ α : Type) : Type :=
  σ → Outcome ε σ α

namespace Transition

variable {ε σ α β : Type}

/-- What the transition comes to from a state. -/
@[always_inline, inline] def run (x : Transition ε σ α) (s : σ) : Outcome ε σ α :=
  x s

@[ext] theorem ext {x y : Transition ε σ α} (h : ∀ s, x.run s = y.run s) : x = y :=
  funext h

/-! ## Ways of making a transition -/

@[always_inline] instance : Monad (Transition ε σ) where
  pure a := fun s => .done a s
  bind x f := fun s => (x s).andThen f

/-- Is refused. -/
@[always_inline, inline] def refuse (cause : ε) : Transition ε σ α :=
  fun s => .refused cause s

/-- Halts the machine. -/
@[always_inline, inline] def halt (cause : Halt) : Transition ε σ α :=
  fun _ => .halted cause

/-- Answers a value taken from the state. -/
@[always_inline, inline] def observe (f : σ → α) : Transition ε σ α :=
  fun s => .done (f s) s

/-- Changes the state. -/
@[always_inline, inline] def change (f : σ → σ) : Transition ε σ Unit :=
  fun s => .done () (f s)

/-- A computation that may halt is a transition that leaves the state alone. -/
@[always_inline] instance : MonadLift (Except Halt) (Transition ε σ) where
  monadLift
    | .ok a => pure a
    | .error cause => halt cause

/-- Answers whether `x` was refused instead of being refused. -/
@[always_inline, inline] def attempt (x : Transition ε σ α) : Transition ε σ (Except ε α) :=
  fun s =>
    match x s with
    | .done a s => .done (.ok a) s
    | .refused cause s => .done (.error cause) s
    | .halted cause => .halted cause

/-- Runs `x`. When it is refused, cleans up and is refused for the same cause. -/
@[always_inline, inline] def onRefusal (x : Transition ε σ α) (cleanup : ε → Transition ε σ Unit) :
    Transition ε σ α := do
  match ← x.attempt with
  | .ok a => return a
  | .error cause =>
    cleanup cause
    refuse cause

/-! ## What they come to -/

@[simp] theorem run_pure (a : α) (s : σ) : (pure a : Transition ε σ α).run s = .done a s := rfl

@[simp] theorem run_bind (x : Transition ε σ α) (f : α → Transition ε σ β) (s : σ) :
    (x >>= f).run s = (x.run s).andThen fun a s => (f a).run s := rfl

@[simp] theorem run_map (f : α → β) (x : Transition ε σ α) (s : σ) :
    (f <$> x).run s = (x.run s).andThen fun a s => .done (f a) s := rfl

@[simp] theorem run_discard (x : Transition ε σ α) (s : σ) :
    (discard x).run s = (x.run s).andThen fun _ s => .done () s := rfl

@[simp] theorem run_refuse (cause : ε) (s : σ) :
    (refuse cause : Transition ε σ α).run s = .refused cause s := rfl

@[simp] theorem run_halt (cause : Halt) (s : σ) :
    (halt cause : Transition ε σ α).run s = .halted cause := rfl

@[simp] theorem run_observe (f : σ → α) (s : σ) :
    (observe f : Transition ε σ α).run s = .done (f s) s := rfl

@[simp] theorem run_change (f : σ → σ) (s : σ) :
    (change f : Transition ε σ Unit).run s = .done () (f s) := rfl

@[simp] theorem liftM_ok (a : α) :
    (liftM (Except.ok a : Except Halt α) : Transition ε σ α) = pure a := rfl

@[simp] theorem liftM_error (cause : Halt) :
    (liftM (Except.error cause : Except Halt α) : Transition ε σ α) = halt cause := rfl

theorem run_attempt (x : Transition ε σ α) (s : σ) :
    x.attempt.run s =
      match x.run s with
      | .done a s => .done (.ok a) s
      | .refused cause s => .done (.error cause) s
      | .halted cause => .halted cause := rfl

end Transition

namespace Outcome

variable {ε σ α β γ : Type}

@[simp] theorem andThen_done (a : α) (s : σ) (next : α → σ → Outcome ε σ β) :
    (done a s).andThen next = next a s := rfl

@[simp] theorem andThen_refused (cause : ε) (s : σ) (next : α → σ → Outcome ε σ β) :
    (refused cause s).andThen next = .refused cause s := rfl

@[simp] theorem andThen_halted (cause : Halt) (next : α → σ → Outcome ε σ β) :
    (halted cause).andThen next = .halted cause := rfl

@[simp] theorem andThen_assoc (o : Outcome ε σ α) (f : α → σ → Outcome ε σ β)
    (g : β → σ → Outcome ε σ γ) :
    (o.andThen f).andThen g = o.andThen fun a s => (f a s).andThen g := by
  cases o <;> rfl

/-- Two steps are done when the first is and the second is from there. -/
theorem andThen_eq_done_iff {o : Outcome ε σ α} {next : α → σ → Outcome ε σ β} {b : β} {s : σ} :
    o.andThen next = done b s ↔ ∃ a s', o = done a s' ∧ next a s' = done b s := by
  constructor
  · intro h
    cases o with
    | done a s' => exact ⟨a, s', rfl, h⟩
    | refused cause s' => cases h
    | halted cause => cases h
  · rintro ⟨a, s', rfl, h⟩
    exact h

@[simp] theorem andThen_done_self (o : Outcome ε σ α) : o.andThen done = o := by
  cases o <;> rfl

end Outcome

instance {ε σ : Type} : LawfulMonad (Transition ε σ) :=
  LawfulMonad.mk' (Transition ε σ)
    (fun x => Transition.ext fun s => Outcome.andThen_done_self (x.run s))
    (fun _ _ => rfl)
    (fun x _ _ => Transition.ext fun s => Outcome.andThen_assoc (x.run s) _ _)

end SoftPaging
