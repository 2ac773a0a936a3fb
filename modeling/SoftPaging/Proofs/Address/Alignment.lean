import Mathlib
import SoftPaging.Address.Basic
import SoftPaging.Proofs.Word.Rounding

/-!
# Aligning an address

The operations on alignment work by masks over words. For a power of two they answer what division
answers: the nearest multiple below, and the nearest one above if the machine has that address
(`Address.Rounds`). Alignments are words, twice as wide as addresses, and the mask of a wide one clears
the whole address. The sum that is rounded up stays within the word even then, since it is below
`2 ^ 32 + 2 ^ 63`; so only the width of the result can stop the operation.
-/

namespace SoftPaging

/-- The computation halts, and the console shows these words. -/
def HaltsSaying {α : Type} (x : Except Halt α) (words : String) : Prop :=
  ∃ cause, x = .error cause ∧ cause.message = words

namespace Address

variable {realm : Realm} {align : Nat}

/-- Aligning the address is rounding it to a multiple of `align`. The nearest one that is not above it
is always an address; the nearest one that is not below it may be too large. -/
structure Rounds (a : Address realm) (align : Nat) : Prop where
  isAligned_eq : a.isAligned align = .ok (decide (align ∣ a.val))
  alignDown_eq_self_iff : a.alignDown align = .ok a ↔ align ∣ a.val
  exists_alignDown : ∃ down, a.alignDown align = .ok down ∧
    IsGreatest {m | align ∣ m ∧ m ≤ a.val} down.val
  exists_alignUp : ∃ up, IsLeast {m | align ∣ m ∧ a.val ≤ m} up ∧
    (∀ h : up < addressLimit, a.alignUp align = .ok ⟨up, h⟩) ∧
    (addressLimit ≤ up → HaltsSaying (a.alignUp align) "address exceeds 32 bits")

end Address

/-! ## Halting -/

section

variable {α : Type} {x : Except Halt α} {b : α} {words words' : String}

theorem not_haltsSaying_of_eq_ok (h : x = .ok b) : ¬ HaltsSaying x words := by
  rintro ⟨cause, herror, -⟩
  cases h.symm.trans herror

theorem HaltsSaying.unique (h : HaltsSaying x words) (h' : HaltsSaying x words') :
    words = words' := by
  obtain ⟨cause, rfl, rfl⟩ := h
  obtain ⟨cause', hcause, rfl⟩ := h'
  cases hcause
  rfl

end

namespace Address

/-- An alignment that is not a power of two stops every operation before it looks at the address. -/
theorem haltsSaying_of_not_power (a : Address realm) (h : ¬ ∃ k, align = 2 ^ k) :
    HaltsSaying (a.isAligned align) "alignment must be a power of two" ∧
    HaltsSaying (a.alignDown align) "alignment must be a power of two" ∧
    HaltsSaying (a.alignUp align) "alignment must be a power of two" := by
  have hpower : isPowerOfTwo align = false := Bool.eq_false_iff.2 (mt isPowerOfTwo_iff.1 h)
  rw [isAligned, alignDown, alignUp, hpower]
  exact ⟨⟨_, rfl, rfl⟩, ⟨_, rfl, rfl⟩, ⟨_, rfl, rfl⟩⟩

/-! ## Powers of two -/

variable {k : Nat}

theorem isAligned_two_pow (a : Address realm) (k : Nat) :
    a.isAligned (2 ^ k) = .ok (decide (2 ^ k ∣ a.val)) := by
  have hdvd : (lowBits a.val (2 ^ k) == 0) = decide (2 ^ k ∣ a.val) := by
    rw [lowBits_two_pow, Bool.eq_iff_iff, beq_iff_eq, decide_eq_true_iff, Nat.dvd_iff_mod_eq_zero]
  rw [isAligned, isPowerOfTwo_two_pow, hdvd]
  rfl

theorem alignDown_two_pow (a : Address realm) (hk : k ≤ 63) :
    ∃ down, a.alignDown (2 ^ k) = .ok down ∧ down.val = a.val / 2 ^ k * 2 ^ k := by
  have hword : a.val < wordLimit := Nat.lt_trans a.val_lt (by decide)
  rw [alignDown, isPowerOfTwo_two_pow]
  exact ⟨_, rfl, clearLow_two_pow hword (by omega)⟩

/-- The steps of rounding up stay within the word, whatever the alignment. -/
theorem alignUp_two_pow (a : Address realm) (hk : k ≤ 63) :
    a.alignUp (2 ^ k) = ofNat (a.val ⌈/⌉ 2 ^ k * 2 ^ k) := by
  have hwidth : 2 ^ k ≤ 2 ^ 63 := Nat.pow_le_pow_right (by decide) hk
  have hpos : 0 < 2 ^ k := Nat.two_pow_pos k
  have hlt := a.val_lt
  have hsum : a.val + 2 ^ k < wordLimit := by
    simp only [addressLimit, wordLimit] at *
    omega
  have hpast : checkedAdd a.val (2 ^ k) = .ok (a.val + 2 ^ k) :=
    checkedAdd_eq_ok_iff.2 ⟨rfl, hsum⟩
  have hlast : checkedSub (a.val + 2 ^ k) 1 = .ok (a.val + 2 ^ k - 1) :=
    checkedSub_eq_ok_iff.2 ⟨rfl, by omega⟩
  have hclear : clearLow (a.val + 2 ^ k - 1) (2 ^ k) = a.val ⌈/⌉ 2 ^ k * 2 ^ k := by
    rw [Nat.ceilDiv_eq_add_pred_div]
    exact clearLow_two_pow (by omega) (by omega)
  calc a.alignUp (2 ^ k)
    _ = (do ofNat (clearLow (← checkedSub (a.val + 2 ^ k) 1) (2 ^ k))) := by
      rw [alignUp, isPowerOfTwo_two_pow, hpast]
      rfl
    _ = ofNat (clearLow (a.val + 2 ^ k - 1) (2 ^ k)) := by
      rw [hlast]
      rfl
    _ = ofNat (a.val ⌈/⌉ 2 ^ k * 2 ^ k) := by rw [hclear]

/-- Every power of two in the word is an alignment. -/
theorem rounds_two_pow (a : Address realm) (hk : k ≤ 63) : a.Rounds (2 ^ k) := by
  have hpos : 0 < 2 ^ k := Nat.two_pow_pos k
  obtain ⟨down, hdown, hval⟩ := a.alignDown_two_pow hk
  constructor
  · exact a.isAligned_two_pow k
  · rw [hdown, Except.ok.injEq, Address.ext_iff, hval, Nat.dvd_iff_div_mul_eq]
  · exact ⟨down, hdown, hval ▸ isGreatest_div_mul a.val (2 ^ k) hpos⟩
  · refine ⟨_, isLeast_ceilDiv_mul a.val (2 ^ k) hpos, fun hfits => ?_, fun hwide => ?_⟩
    · rw [a.alignUp_two_pow hk, ofNat_of_lt hfits]
    · refine ⟨.addressTooWide, ?_, rfl⟩
      rw [a.alignUp_two_pow hk, ofNat, dif_neg (Nat.not_lt.2 hwide)]

/-- An address that is rounded was not refused its alignment. -/
theorem Rounds.accepts {a : Address realm} (h : a.Rounds align) :
    ¬ HaltsSaying (a.isAligned align) "alignment must be a power of two" ∧
    ¬ HaltsSaying (a.alignDown align) "alignment must be a power of two" ∧
    ¬ HaltsSaying (a.alignUp align) "alignment must be a power of two" := by
  obtain ⟨down, hdown, -⟩ := h.exists_alignDown
  obtain ⟨up, -, hfits, hwide⟩ := h.exists_alignUp
  refine ⟨not_haltsSaying_of_eq_ok h.isAligned_eq, not_haltsSaying_of_eq_ok hdown, fun hhalts => ?_⟩
  rcases Nat.lt_or_ge up addressLimit with hup | hup
  · exact not_haltsSaying_of_eq_ok (hfits hup) hhalts
  · -- it halts for the other reason, and the console tells the two apart
    exact absurd (hhalts.unique (hwide hup)) (by decide)

/-- Each of the three operations on alignment halts over the alignment just when that is not a power
of two. For a power of two they round the address exactly. -/
theorem alignment_exact (a : Address realm) (hword : align < wordLimit) :
    (HaltsSaying (a.isAligned align) "alignment must be a power of two" ↔ ¬ ∃ k, align = 2 ^ k) ∧
    (HaltsSaying (a.alignDown align) "alignment must be a power of two" ↔ ¬ ∃ k, align = 2 ^ k) ∧
    (HaltsSaying (a.alignUp align) "alignment must be a power of two" ↔ ¬ ∃ k, align = 2 ^ k) ∧
    ((∃ k, align = 2 ^ k) → a.Rounds align) := by
  by_cases hpower : ∃ k, align = 2 ^ k
  · have hrounds : a.Rounds align := by
      obtain ⟨k, rfl⟩ := hpower
      have hk : k < 64 := (Nat.pow_lt_pow_iff_right (by decide)).1 (hword : 2 ^ k < 2 ^ 64)
      exact a.rounds_two_pow (Nat.le_of_lt_succ hk)
    obtain ⟨hasked, hdown, hup⟩ := hrounds.accepts
    exact ⟨iff_of_false hasked (not_not.2 hpower), iff_of_false hdown (not_not.2 hpower),
      iff_of_false hup (not_not.2 hpower), fun _ => hrounds⟩
  · obtain ⟨hasked, hdown, hup⟩ := a.haltsSaying_of_not_power hpower
    exact ⟨iff_of_true hasked hpower, iff_of_true hdown hpower, iff_of_true hup hpower,
      fun h => absurd h hpower⟩

/-- The last address at the widest alignment: the mask clears all of it, and the nearest multiple above
is far past the machine. -/
theorem last_address_at_widest :
    (2 : Nat) ^ 63 < wordLimit ∧ (⟨0xFFFFFFFF, by decide⟩ : VirtualAddress).Rounds (2 ^ 63) ∧
    HaltsSaying ((⟨0xFFFFFFFF, by decide⟩ : VirtualAddress).alignUp (2 ^ 63))
      "address exceeds 32 bits" := by
  have hword : (2 : Nat) ^ 63 < wordLimit := by decide
  have hrounds := (alignment_exact (⟨0xFFFFFFFF, by decide⟩ : VirtualAddress) hword).2.2.2 ⟨63, rfl⟩
  obtain ⟨up, ⟨⟨hdvd, hle⟩, -⟩, -, hwide⟩ := hrounds.exists_alignUp
  have hup : 2 ^ 63 ≤ up := Nat.le_of_dvd (Nat.lt_of_lt_of_le (by decide) hle) hdvd
  exact ⟨hword, hrounds, hwide (Nat.le_trans (by decide) hup)⟩

end Address

end SoftPaging
