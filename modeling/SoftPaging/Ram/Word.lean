import SoftPaging.Ram.Basic

/-!
# Words of RAM

Half words of 16 bits and words of 32 bits lie in RAM little-endian, and need no alignment. A word
that was stored is read back as it was (`word_storeWord_self`), and a store touches no other byte
than its own (`byte_storeWord_of_disjoint`).
-/

namespace SoftPaging

namespace Ram

/-- The little-endian 16-bit word at position `i`. -/
def half (r : Ram) (i : Nat) : UInt16 :=
  .ofNat ((r.byte i).toNat + 256 * (r.byte (i + 1)).toNat)

/-- Writes a 16-bit word at position `i`, low byte first. -/
def storeHalf (r : Ram) (i : Nat) (w : UInt16) : Ram :=
  (r.store i (.ofNat w.toNat)).store (i + 1) (.ofNat (w.toNat / 256))

/-- The little-endian 32-bit word at position `i`. -/
def word (r : Ram) (i : Nat) : UInt32 :=
  .ofNat ((r.byte i).toNat + 256 * (r.byte (i + 1)).toNat + 65536 * (r.byte (i + 2)).toNat
    + 16777216 * (r.byte (i + 3)).toNat)

/-- Writes a 32-bit word at position `i`, low byte first. -/
def storeWord (r : Ram) (i : Nat) (w : UInt32) : Ram :=
  (((r.store i (.ofNat w.toNat)).store (i + 1) (.ofNat (w.toNat / 256))).store
    (i + 2) (.ofNat (w.toNat / 65536))).store (i + 3) (.ofNat (w.toNat / 16777216))

/-! ## After a write -/

@[simp] theorem size_storeWord (r : Ram) (i : Nat) (w : UInt32) :
    (r.storeWord i w).size = r.size := by
  simp [storeWord]

@[simp] theorem size_storeHalf (r : Ram) (i : Nat) (w : UInt16) :
    (r.storeHalf i w).size = r.size := by
  simp [storeHalf]

/-- A word is determined by its four bytes. -/
theorem word_congr {r s : Ram} {i : Nat} (h : ∀ j, i ≤ j → j < i + 4 → r.byte j = s.byte j) :
    r.word i = s.word i := by
  unfold word
  rw [h i (by omega) (by omega), h (i + 1) (by omega) (by omega), h (i + 2) (by omega) (by omega),
    h (i + 3) (by omega) (by omega)]

/-- A word determines its four bytes. -/
theorem byte_eq_of_word_eq {r s : Ram} {i j : Nat} (h : r.word i = s.word i) (hlow : i ≤ j)
    (hhigh : j < i + 4) : r.byte j = s.byte j := by
  have hword := congrArg UInt32.toNat h
  have hr0 := (r.byte i).toNat_lt
  have hr1 := (r.byte (i + 1)).toNat_lt
  have hr2 := (r.byte (i + 2)).toNat_lt
  have hr3 := (r.byte (i + 3)).toNat_lt
  have hs0 := (s.byte i).toNat_lt
  have hs1 := (s.byte (i + 1)).toNat_lt
  have hs2 := (s.byte (i + 2)).toNat_lt
  have hs3 := (s.byte (i + 3)).toNat_lt
  simp only [word, UInt32.toNat_ofNat'] at hword
  apply UInt8.toNat_inj.1
  obtain rfl | rfl | rfl | rfl : j = i ∨ j = i + 1 ∨ j = i + 2 ∨ j = i + 3 := by omega
  all_goals omega

/-- A word store touches only its own four bytes. -/
theorem byte_storeWord_of_disjoint (r : Ram) {i j : Nat} (w : UInt32)
    (h : j < i ∨ i + 4 ≤ j) : (r.storeWord i w).byte j = r.byte j := by
  simp only [storeWord, byte_store, size_store]
  grind

/-- What was stored as a word is read back as that word. -/
theorem word_storeWord_self (r : Ram) {i : Nat} (w : UInt32) (h : i + 4 ≤ r.size) :
    (r.storeWord i w).word i = w := by
  have h0 : (r.storeWord i w).byte i = .ofNat w.toNat := by
    simp only [storeWord, byte_store, size_store]
    grind
  have h1 : (r.storeWord i w).byte (i + 1) = .ofNat (w.toNat / 256) := by
    simp only [storeWord, byte_store, size_store]
    grind
  have h2 : (r.storeWord i w).byte (i + 2) = .ofNat (w.toNat / 65536) := by
    simp only [storeWord, byte_store, size_store]
    grind
  have h3 : (r.storeWord i w).byte (i + 3) = .ofNat (w.toNat / 16777216) := by
    simp only [storeWord, byte_store, size_store]
    grind
  have hw := w.toNat_lt
  apply UInt32.toNat_inj.1
  simp only [word, h0, h1, h2, h3, UInt32.toNat_ofNat', UInt8.toNat_ofNat']
  omega

/-- A word store leaves the words of other positions alone. -/
theorem word_storeWord_of_disjoint (r : Ram) {i j : Nat} (w : UInt32)
    (h : j + 4 ≤ i ∨ i + 4 ≤ j) : (r.storeWord i w).word j = r.word j :=
  word_congr fun _ hl hu => byte_storeWord_of_disjoint r w (by omega)

/-- What was stored as a half word is read back as that half word. -/
theorem half_storeHalf_self (r : Ram) {i : Nat} (w : UInt16) (h : i + 2 ≤ r.size) :
    (r.storeHalf i w).half i = w := by
  have h0 : (r.storeHalf i w).byte i = .ofNat w.toNat := by
    simp only [storeHalf, byte_store, size_store]
    grind
  have h1 : (r.storeHalf i w).byte (i + 1) = .ofNat (w.toNat / 256) := by
    simp only [storeHalf, byte_store, size_store]
    grind
  have hw := w.toNat_lt
  apply UInt16.toNat_inj.1
  simp only [half, h0, h1, UInt16.toNat_ofNat', UInt8.toNat_ofNat']
  omega

/-- A half word store touches only its own two bytes. -/
theorem byte_storeHalf_of_disjoint (r : Ram) {i j : Nat} (w : UInt16)
    (h : j < i ∨ i + 2 ≤ j) : (r.storeHalf i w).byte j = r.byte j := by
  simp only [storeHalf, byte_store, size_store]
  grind

end Ram

end SoftPaging
