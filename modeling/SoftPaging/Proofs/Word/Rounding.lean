import Mathlib
import SoftPaging.Word.Rounding

/-!
# Masks as remainders

For `align = 2 ^ k` the bits of a word below the alignment are its remainder (`lowBits_two_pow`), and
clearing them leaves what the remainder leaves (`clearLow_two_pow`). A quotient times its divisor is
the nearest multiple, below or above as the quotient was rounded (`isGreatest_div_mul`,
`isLeast_ceilDiv_mul`).
-/

namespace SoftPaging

theorem isPowerOfTwo_two_pow (k : Nat) : isPowerOfTwo (2 ^ k) = true := by
  simp [isPowerOfTwo, Nat.one_shiftLeft, Nat.log2_two_pow]

theorem isPowerOfTwo_iff {n : Nat} : isPowerOfTwo n = true ↔ ∃ k, n = 2 ^ k := by
  constructor
  · intro h
    exact ⟨n.log2, (by simpa [isPowerOfTwo, Nat.one_shiftLeft] using h : 2 ^ n.log2 = n).symm⟩
  · rintro ⟨k, rfl⟩
    exact isPowerOfTwo_two_pow k

theorem lowBits_two_pow (n k : Nat) : lowBits n (2 ^ k) = n % 2 ^ k := by
  simp [lowBits, Nat.and_two_pow_sub_one_eq_mod]

/-- Clearing the low `k` bits of a word leaves its largest multiple of `2 ^ k`. -/
theorem clearLow_two_pow {n k : Nat} (hn : n < wordLimit) (hk : k ≤ 64) :
    clearLow n (2 ^ k) = n / 2 ^ k * 2 ^ k := by
  have hmask : wordLimit - 2 ^ k = (2 ^ (64 - k) - 1) * 2 ^ k := by
    rw [Nat.sub_mul, Nat.one_mul, ← Nat.pow_add, Nat.sub_add_cancel hk]
  have hlt : n / 2 ^ k < 2 ^ (64 - k) := by
    rw [Nat.div_lt_iff_lt_mul (Nat.two_pow_pos k), ← Nat.pow_add, Nat.sub_add_cancel hk]
    exact hn
  unfold clearLow
  rw [hmask]
  apply Nat.eq_of_testBit_eq
  intro i
  simp only [Nat.testBit_and, Nat.testBit_mul_two_pow, Nat.testBit_two_pow_sub_one,
    Nat.testBit_div_two_pow]
  by_cases hi : k ≤ i
  · have hsum : i - k + k = i := Nat.sub_add_cancel hi
    simp only [hi, decide_true, Bool.true_and, hsum]
    by_cases hw : i - k < 64 - k
    · simp [hw]
    · have : n.testBit i = false := by
        apply Nat.testBit_lt_two_pow
        calc n < 2 ^ 64 := hn
          _ ≤ 2 ^ i := Nat.pow_le_pow_right (by decide) (by omega)
      simp [this]
  · simp [hi]

/-- Dividing and multiplying again leads to the nearest multiple below. -/
theorem isGreatest_div_mul (n d : Nat) (hd : 0 < d) :
    IsGreatest {m | d ∣ m ∧ m ≤ n} (n / d * d) := by
  refine ⟨⟨Nat.dvd_mul_left d _, Nat.div_mul_le_self n d⟩, ?_⟩
  rintro m ⟨⟨q, rfl⟩, hle⟩
  rw [Nat.mul_comm d q] at hle ⊢
  exact Nat.mul_le_mul_right d ((Nat.le_div_iff_mul_le hd).2 hle)

/-- When the quotient is rounded up, it leads to the nearest multiple above. -/
theorem isLeast_ceilDiv_mul (n d : Nat) (hd : 0 < d) :
    IsLeast {m | d ∣ m ∧ n ≤ m} (n ⌈/⌉ d * d) := by
  refine ⟨⟨Nat.dvd_mul_left d _, ?_⟩, ?_⟩
  · rw [Nat.mul_comm]
    exact le_smul_ceilDiv hd
  · rintro m ⟨⟨q, rfl⟩, hle⟩
    rw [Nat.mul_comm d q]
    exact Nat.mul_le_mul_right d ((ceilDiv_le_iff_le_mul hd).2 hle)

end SoftPaging
