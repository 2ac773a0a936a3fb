/-!
# Bytes of RAM

The RAM of the machine is a flat, zero-based array of bytes. Everything the memory manager keeps
lies in it: frame records, page directories, second-level tables, owned values, user pages.

The one view of RAM is `Ram.byte`, total in its position: past the end every byte reads as zero.
Every write is total as well and leaves positions past the end alone. Each operation has one lemma
that says what it does to the view (`byte_store`, `byte_fill`, `byte_copy`, `byte_storeBytes`).
-/

namespace SoftPaging

/-- The bytes of RAM. -/
structure Ram where
  bytes : ByteArray

namespace Ram

instance : DecidableEq Ram := fun r r' =>
  decidable_of_iff (r.bytes.data = r'.bytes.data)
    ⟨fun h => congrArg mk (ByteArray.ext h), fun h => congrArg (·.bytes.data) h⟩

/-- The number of bytes. -/
def size (r : Ram) : Nat :=
  r.bytes.size

/-- The byte at position `i`, zero past the end. -/
def byte (r : Ram) (i : Nat) : UInt8 :=
  if h : i < r.bytes.size then r.bytes[i] else 0

/-- Writes one byte; does nothing past the end. -/
def store (r : Ram) (i : Nat) (v : UInt8) : Ram :=
  if h : i < r.bytes.size then ⟨r.bytes.set i v h⟩ else r

/-- Appends `n` zero bytes. -/
def pushZeros (b : ByteArray) : Nat → ByteArray
  | 0 => b
  | n + 1 => pushZeros (b.push 0) n

/-- RAM of `n` bytes, all zero. -/
def zeroed (n : Nat) : Ram :=
  ⟨pushZeros (ByteArray.emptyWithCapacity n) n⟩

/-- Writes `v` to the `n` positions from `start` on. -/
def fill (r : Ram) (start n : Nat) (v : UInt8) : Ram :=
  match n with
  | 0 => r
  | n + 1 => fill (r.store start v) (start + 1) n v

/-- Copies the `n` bytes from `source` on to the positions from `target` on, lowest first. -/
def copy (r : Ram) (source target n : Nat) : Ram :=
  match n with
  | 0 => r
  | n + 1 => copy (r.store target (r.byte source)) (source + 1) (target + 1) n

/-- Writes a list of bytes to the positions from `start` on. -/
def storeBytes (r : Ram) (start : Nat) : List UInt8 → Ram
  | [] => r
  | v :: vs => storeBytes (r.store start v) (start + 1) vs

/-- The `n` bytes from `start` on. -/
def slice (r : Ram) (start n : Nat) : List UInt8 :=
  (List.range' start n).map r.byte

/-! ## The view after a write -/

@[simp] theorem size_store (r : Ram) (i : Nat) (v : UInt8) : (r.store i v).size = r.size := by
  unfold store size
  split
  · exact Array.size_set _
  · rfl

theorem byte_of_size_le {r : Ram} {i : Nat} (h : r.size ≤ i) : r.byte i = 0 :=
  dif_neg (Nat.not_lt.2 h)

theorem byte_store (r : Ram) (i j : Nat) (v : UInt8) :
    (r.store i v).byte j = if i = j ∧ j < r.size then v else r.byte j := by
  unfold store
  by_cases hi : i < r.bytes.size
  · simp only [hi, dite_true]
    have hsize : (r.bytes.set i v hi).size = r.bytes.size := Array.size_set _
    by_cases hj : j < r.bytes.size
    · have hj' : j < (r.bytes.set i v hi).size := by omega
      simp only [byte, hj, hj', dite_true]
      have hget : (r.bytes.set i v hi)[j] = if i = j then v else r.bytes[j] :=
        Array.getElem_set hi hj'
      simp [hget, size, hj]
    · have hj' : ¬ j < (r.bytes.set i v hi).size := by omega
      simp [byte, hj, hj', size]
  · simp only [hi, dite_false]
    have : ¬ (i = j ∧ j < r.size) := by rintro ⟨rfl, h⟩; exact hi h
    simp [this]

@[simp] theorem size_fill (r : Ram) (start n : Nat) (v : UInt8) :
    (r.fill start n v).size = r.size := by
  induction n generalizing r start with
  | zero => rfl
  | succ n ih => simp [fill, ih]

theorem byte_fill (r : Ram) (start n j : Nat) (v : UInt8) :
    (r.fill start n v).byte j =
      if start ≤ j ∧ j < start + n ∧ j < r.size then v else r.byte j := by
  induction n generalizing r start with
  | zero => rw [if_neg (by omega)]; rfl
  | succ n ih =>
    simp only [fill, ih, byte_store, size_store]
    grind

@[simp] theorem size_copy (r : Ram) (source target n : Nat) :
    (r.copy source target n).size = r.size := by
  induction n generalizing r source target with
  | zero => rfl
  | succ n ih => simp [copy, ih]

/-- Copying between two ranges that do not overlap moves the old bytes of the source. -/
theorem byte_copy (r : Ram) {source target n : Nat} (j : Nat)
    (apart : source + n ≤ target ∨ target + n ≤ source) :
    (r.copy source target n).byte j =
      if target ≤ j ∧ j < target + n ∧ j < r.size then r.byte (source + (j - target))
      else r.byte j := by
  induction n generalizing r source target with
  | zero => rw [if_neg (by omega)]; rfl
  | succ n ih =>
    rw [copy, ih _ (by omega)]
    simp only [byte_store, size_store]
    grind

@[simp] theorem size_storeBytes (r : Ram) (start : Nat) (vs : List UInt8) :
    (r.storeBytes start vs).size = r.size := by
  induction vs generalizing r start with
  | nil => rfl
  | cons v vs ih => simp [storeBytes, ih]

theorem byte_storeBytes (r : Ram) (start j : Nat) (vs : List UInt8) :
    (r.storeBytes start vs).byte j =
      if start ≤ j ∧ j < start + vs.length ∧ j < r.size then vs.getD (j - start) 0
      else r.byte j := by
  induction vs generalizing r start with
  | nil => rw [if_neg (by simp only [List.length_nil]; omega)]; rfl
  | cons v vs ih =>
    simp only [storeBytes, ih, byte_store, size_store, List.length_cons]
    grind

@[simp] theorem length_slice (r : Ram) (start n : Nat) : (r.slice start n).length = n := by
  simp [slice]

theorem size_pushZeros (b : ByteArray) (n : Nat) : (pushZeros b n).size = b.size + n := by
  induction n generalizing b with
  | zero => rfl
  | succ n ih => rw [pushZeros, ih, ByteArray.size_push]; omega

@[simp] theorem size_zeroed (n : Nat) : (zeroed n).size = n := by
  unfold zeroed size
  rw [size_pushZeros]
  exact Nat.zero_add n

theorem byte_pushZeros (b : ByteArray) (n j : Nat) :
    (Ram.mk (pushZeros b n)).byte j = (Ram.mk b).byte j := by
  induction n generalizing b with
  | zero => rfl
  | succ n ih =>
    rw [pushZeros, ih]
    simp only [byte, ByteArray.size_push]
    by_cases hj : j < b.size
    · have hj' : j < b.size + 1 := by omega
      simp only [hj, hj', dite_true]
      exact Array.getElem_push_lt hj
    · by_cases hj' : j < b.size + 1
      · have heq : j = b.size := by omega
        subst heq
        simp only [hj, hj', dite_true, dite_false]
        exact Array.getElem_push_eq
      · simp [hj, hj']

@[simp] theorem byte_zeroed (n j : Nat) : (zeroed n).byte j = 0 := by
  unfold zeroed
  rw [byte_pushZeros]
  exact byte_of_size_le (Nat.zero_le j)

/-- RAM is determined by its size and its bytes. -/
theorem ext_byte {r s : Ram} (hsize : r.size = s.size) (h : ∀ i, r.byte i = s.byte i) : r = s := by
  obtain ⟨⟨a⟩⟩ := r
  obtain ⟨⟨b⟩⟩ := s
  congr 2
  apply Array.ext hsize
  intro i hi hi'
  have hb := h i
  simp only [byte] at hb
  rw [dif_pos (show i < (ByteArray.mk a).size from hi),
    dif_pos (show i < (ByteArray.mk b).size from hi')] at hb
  exact hb

end Ram

end SoftPaging
