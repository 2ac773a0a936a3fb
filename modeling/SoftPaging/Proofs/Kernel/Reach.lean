import Mathlib
import SoftPaging.Kernel.State

/-!
# What the direct map reaches

`Kernel.Covers k n` says that every address below `n` can be reached. A window covers what it is
as large as (`DirectMap.covers_window`), and reaching a covered frame changes nothing
(`Op.run_reachFrame_of_covers`). Where nothing is covered, reaching a frame still either changes
nothing or halts (`Op.run_reachFrame_cases`).
-/

namespace SoftPaging

/-- The direct map reaches every address below `n`. -/
def DirectMap.Covers (m : DirectMap) (n : Nat) : Prop :=
  ∀ a : PhysicalAddress, a.val < n → ∃ v, m.reach a = .ok v

/-- A direct map is installed that reaches every address below `n`. -/
def Kernel.Covers (k : Kernel) (n : Nat) : Prop :=
  ∃ m, k.directMap? = some m ∧ m.Covers n

theorem DirectMap.covers_window (base : UInt64) {size n : Nat} (h : n ≤ size) :
    (DirectMap.window base size).Covers n :=
  fun _ ha => ⟨_, reach_window (Nat.lt_of_lt_of_le ha h)⟩

theorem Kernel.Covers.congr {k k' : Kernel} {n : Nat} (h : k.Covers n)
    (hmap : k'.directMap? = k.directMap?) : k'.Covers n := by
  obtain ⟨m, hm, hcovers⟩ := h
  exact ⟨m, hmap.trans hm, hcovers⟩

namespace Op

variable {k : Kernel} {n : Nat} {a : PhysicalAddress}

/-- A physical address is looked up in the direct map that is installed. -/
theorem run_directMapped_eq_done_iff {k' : Kernel} {v : KernelAddress} :
    (directMapped a).run k = .done v k' ↔
      k' = k ∧ ∃ m, k.directMap? = some m ∧ m.reach a = .ok v := by
  unfold directMapped directMap
  cases hmap : k.directMap? with
  | none => simp [hmap]
  | some m =>
    cases hreach : m.reach a with
    | error cause => simp [hmap, hreach]
    | ok w => simp [hmap, hreach, and_comm, eq_comm]

theorem run_directMapped_of_covers (h : k.Covers n) (ha : a.val < n) :
    ∃ v, (directMapped a).run k = .done v k := by
  obtain ⟨m, hm, hcovers⟩ := h
  obtain ⟨v, hv⟩ := hcovers a ha
  exact ⟨v, run_directMapped_eq_done_iff.2 ⟨rfl, m, hm, hv⟩⟩

theorem run_reachFrame_of_covers (h : k.Covers n) (ha : a.val < n) :
    (reachFrame a).run k = .done () k := by
  obtain ⟨v, hv⟩ := run_directMapped_of_covers h ha
  simp [reachFrame, hv]

theorem run_reachFrame_cases (a : PhysicalAddress) (k : Kernel) :
    (reachFrame a).run k = .done () k ∨ ∃ cause, (reachFrame a).run k = .halted cause := by
  unfold reachFrame directMapped directMap
  cases hmap : k.directMap? with
  | none => exact .inr ⟨.directMapMissing, by simp [hmap]⟩
  | some m =>
    cases hreach : m.reach a with
    | error cause => exact .inr ⟨cause, by simp [hmap, hreach]⟩
    | ok v => exact .inl (by simp [hmap, hreach])

end Op

end SoftPaging
