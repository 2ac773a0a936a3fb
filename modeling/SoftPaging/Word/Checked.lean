import SoftPaging.Error
import SoftPaging.Parameters

/-!
# Checked 64-bit arithmetic

Sizes, counts and indices are natural numbers below `wordLimit`. An operation whose result would
leave that range halts the machine instead of wrapping.

The three operations agree with the exact ones wherever they answer, which is what
`checkedAdd_eq_ok_iff` and its two companions say.
-/

namespace SoftPaging

/-- The sum of two words; halts when it needs more than 64 bits. -/
def checkedAdd (a b : Nat) : Except Halt Nat :=
  if a + b < wordLimit then .ok (a + b) else .error .addOverflow

/-- The difference of two words; halts when it would be negative. -/
def checkedSub (a b : Nat) : Except Halt Nat :=
  if b ≤ a then .ok (a - b) else .error .subOverflow

/-- The product of two words; halts when it needs more than 64 bits. -/
def checkedMul (a b : Nat) : Except Halt Nat :=
  if a * b < wordLimit then .ok (a * b) else .error .mulOverflow

/-- The index `i` as a position in a sequence of `n` elements; halts when it is past the end. -/
def checkedIndex (n i : Nat) : Except Halt (Fin n) :=
  if h : i < n then .ok ⟨i, h⟩ else .error (.indexOutOfBounds n i)

/-- Halts with `cause` unless the condition holds. -/
def require (condition : Bool) (cause : Halt) : Except Halt Unit :=
  if condition then .ok () else .error cause

/-! ## Where the checks pass -/

theorem checkedAdd_eq_ok_iff {a b c : Nat} :
    checkedAdd a b = .ok c ↔ a + b = c ∧ a + b < wordLimit := by
  unfold checkedAdd
  split <;> grind

theorem checkedSub_eq_ok_iff {a b c : Nat} :
    checkedSub a b = .ok c ↔ a - b = c ∧ b ≤ a := by
  unfold checkedSub
  split <;> grind

theorem checkedMul_eq_ok_iff {a b c : Nat} :
    checkedMul a b = .ok c ↔ a * b = c ∧ a * b < wordLimit := by
  unfold checkedMul
  split <;> grind

@[simp] theorem checkedIndex_of_lt {n i : Nat} (h : i < n) :
    checkedIndex n i = .ok ⟨i, h⟩ := by
  simp [checkedIndex, h]

/-- A computation in two parts answers when both parts do. -/
theorem bind_eq_ok_iff {α β : Type} {x : Except Halt α} {f : α → Except Halt β} {b : β} :
    (x >>= f) = .ok b ↔ ∃ a, x = .ok a ∧ f a = .ok b := by
  cases x <;> simp [bind, Except.bind]

theorem require_eq_ok_iff {condition : Bool} {cause : Halt} {u : Unit} :
    require condition cause = .ok u ↔ condition = true := by
  cases condition <;> simp [require]

@[simp] theorem require_true (cause : Halt) : require true cause = .ok () := rfl

@[simp] theorem require_false (cause : Halt) : require false cause = .error cause := rfl

end SoftPaging
