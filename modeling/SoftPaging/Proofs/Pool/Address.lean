import Mathlib
import SoftPaging.Address.Number
import SoftPaging.Proofs.Word.Rounding

/-!
# Frames and their addresses

A frame is named by its number or by the address of its first byte. `frameAt` goes from the first to
the second, and for a frame whose address fits the machine and an address on a page boundary the two
are the same thing (`number_frameAt`, `frameAt_number`). Shifts and masks are read as quotients and
remainders here, once for all.
-/

namespace SoftPaging

namespace Address

variable {realm : Realm}

theorem number_val (a : Address realm) : a.number.val = a.val / pageSize :=
  Nat.shiftRight_eq_div_pow a.val pageShift

theorem pageOffset_eq (a : Address realm) : a.pageOffset = a.val % pageSize :=
  lowBits_two_pow a.val pageShift

theorem isPageAligned_iff {a : Address realm} : a.isPageAligned = true ↔ a.val % pageSize = 0 := by
  rw [isPageAligned, pageOffset_eq, beq_iff_eq]

theorem isAligned_pageSize (a : Address realm) : a.isAligned pageSize = .ok a.isPageAligned := by
  have hpower : isPowerOfTwo pageSize = true := isPowerOfTwo_two_pow pageShift
  rw [isAligned, hpower]
  rfl

theorem pageBase_val (a : Address realm) : a.pageBase.val = a.val / pageSize * pageSize := by
  have hlt : a.val < wordLimit := Nat.lt_trans a.val_lt (by decide)
  exact clearLow_two_pow (k := pageShift) hlt (by decide)

theorem alignDown_pageSize (a : Address realm) : a.alignDown pageSize = .ok a.pageBase := by
  have hpower : isPowerOfTwo pageSize = true := isPowerOfTwo_two_pow pageShift
  rw [alignDown, hpower]
  rfl

theorem number_lt (a : Address realm) : a.number.val < 1048576 := by
  have := a.val_lt
  rw [number_val]
  simp only [addressLimit, pageSize] at *
  omega

theorem val_eq_of_aligned {a : Address realm} (h : a.isPageAligned = true) :
    a.val = a.number.val * pageSize := by
  rw [isPageAligned_iff] at h
  rw [number_val, Nat.div_mul_cancel (Nat.dvd_of_mod_eq_zero h)]

/-- The mask over the number of a page clears the offset within it. -/
theorem toNat_and_pageMask (a : Address realm) :
    (a.toWord &&& 0xFFFFF000).toNat = a.pageBase.val := by
  have hmask : (0xFFFFF000 : UInt32).toNat = (2 ^ 20 - 1) * 2 ^ 12 := rfl
  have hpage : pageSize = 2 ^ 12 := rfl
  rw [UInt32.toNat_and, toNat_toWord, hmask, pageBase_val, hpage]
  apply Nat.eq_of_testBit_eq
  intro i
  simp only [Nat.testBit_and, Nat.testBit_mul_two_pow, Nat.testBit_two_pow_sub_one,
    Nat.testBit_div_two_pow]
  by_cases hi : 12 ≤ i
  · rw [Nat.sub_add_cancel hi]
    by_cases hw : i - 12 < 20
    · simp [hi, hw]
    · -- the address has no bits this high
      have hbit : a.val.testBit i = false :=
        Nat.testBit_lt_two_pow (Nat.lt_of_lt_of_le a.val_lt
          (Nat.pow_le_pow_right (n := 2) (i := 32) (by decide) (by omega)))
      rw [hbit, Bool.and_false, Bool.false_and]
  · simp [hi]

end Address

/-- The address of the first byte of frame `i`. -/
def frameAt (i : Nat) : PhysicalAddress :=
  ⟨i * pageSize % addressLimit, Nat.mod_lt _ (by decide)⟩

theorem val_frameAt {i : Nat} (h : i < 1048576) : (frameAt i).val = i * pageSize :=
  Nat.mod_eq_of_lt (by simp only [pageSize, addressLimit]; omega)

theorem number_frameAt {i : Nat} (h : i < 1048576) : (frameAt i).number.val = i := by
  rw [Address.number_val, val_frameAt h, Nat.mul_div_cancel _ (by decide)]

theorem isPageAligned_frameAt {i : Nat} (h : i < 1048576) : (frameAt i).isPageAligned = true := by
  rw [Address.isPageAligned_iff, val_frameAt h, Nat.mul_mod_left]

theorem frameAt_number {a : PhysicalAddress} (h : a.isPageAligned = true) :
    frameAt a.number.val = a :=
  Address.ext ((val_frameAt a.number_lt).trans (Address.val_eq_of_aligned h).symm)

/-- Page-aligned addresses are told apart by their frames. -/
theorem eq_of_number_eq {a b : PhysicalAddress} (ha : a.isPageAligned = true)
    (hb : b.isPageAligned = true) (h : a.number.val = b.number.val) : a = b := by
  rw [← frameAt_number ha, ← frameAt_number hb, h]

theorem start_eq {i : Nat} (h : i < 1048576) :
    (Number.mk i : FrameNumber).start = .ok (frameAt i) :=
  Number.start_eq_ok_iff.2 (val_frameAt h).symm

end SoftPaging
