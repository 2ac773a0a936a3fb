import Mathlib
import SoftPaging.Frame.Pool
import SoftPaging.Ram.Word

/-!
# What a write depends on

Two runs of the memory manager are compared by the bytes on which their RAMs agree. `Ram.Writes g A`
says what becomes of that under a change `g`: the bytes at `A` agree afterwards whatever they were,
and every other byte agrees if it did before. No byte comes to depend on another one.

All writes of the manager are of this form, with `A` the positions that they overwrite, except for
the copy of a page. Marking frame records, which rewrites each of them by what it was, overwrites
nothing in this sense.
-/

namespace SoftPaging

namespace Ram

/-- After `g`, RAMs of one size agree at `A`, and everywhere else where they agreed before. -/
structure Writes (g : Ram → Ram) (A : Set Nat) : Prop where
  size_eq : ∀ ram, (g ram).size = ram.size
  byte_congr : ∀ {ram ram' : Ram} {n : Nat}, ram'.size = ram.size →
    n ∈ A ∨ ram'.byte n = ram.byte n → (g ram').byte n = (g ram).byte n

namespace Writes

variable {f g : Ram → Ram} {A B : Set Nat}

theorem nothing : Writes (fun ram => ram) ∅ :=
  ⟨fun _ => rfl, fun _ h => h.resolve_left (Set.notMem_empty _)⟩

theorem comp (hg : Writes g B) (hf : Writes f A) : Writes (fun ram => g (f ram)) (A ∪ B) where
  size_eq ram := (hg.size_eq _).trans (hf.size_eq ram)
  byte_congr {ram ram' n} hsize h := by
    have hmiddle : (f ram').size = (f ram).size := by rw [hf.size_eq, hf.size_eq, hsize]
    apply hg.byte_congr hmiddle
    rcases h with (hA | hB) | hsame
    · exact .inr (hf.byte_congr hsize (.inl hA))
    · exact .inl hB
    · exact .inr (hf.byte_congr hsize (.inr hsame))

theorem mono (h : Writes g A) (hsub : B ⊆ A) : Writes g B where
  size_eq := h.size_eq
  byte_congr hsize hn := h.byte_congr hsize (hn.imp_left fun hB => hsub hB)

/-- A sequence of writes overwrites what each of them does. -/
theorem foldl {ι : Type} {step : Ram → ι → Ram} {place : ι → Set Nat}
    (h : ∀ i, Writes (step · i) (place i)) :
    ∀ is : List ι, Writes (is.foldl step) {n | ∃ i ∈ is, n ∈ place i}
  | [] => nothing.mono fun n hn => by
      obtain ⟨i, hi, -⟩ := hn
      cases hi
  | i :: is => ((foldl h is).comp (h i)).mono fun n hn => by
      obtain ⟨j, hj, hn⟩ := hn
      rcases List.mem_cons.1 hj with rfl | hj
      · exact .inl hn
      · exact .inr ⟨j, hj, hn⟩

end Writes

theorem writes_store (i : Nat) (v : UInt8) : Writes (·.store i v) {i} where
  size_eq ram := size_store ram i v
  byte_congr {ram ram' n} hsize h := by
    rw [byte_store, byte_store, hsize]
    rcases h with hn | hsame
    · obtain rfl : n = i := hn
      by_cases hlt : n < ram.size
      · simp [hlt]
      · rw [byte_of_size_le (Nat.not_lt.1 hlt), byte_of_size_le (by omega)]
    · rw [hsame]

theorem writes_fill (start n : Nat) (v : UInt8) :
    Writes (·.fill start n v) (Set.Ico start (start + n)) where
  size_eq ram := size_fill ram start n v
  byte_congr {ram ram' j} hsize h := by
    rw [byte_fill, byte_fill, hsize]
    rcases h with hj | hsame
    · obtain ⟨hlow, hhigh⟩ := hj
      by_cases hlt : j < ram.size
      · simp [hlow, hhigh, hlt]
      · rw [byte_of_size_le (Nat.not_lt.1 hlt), byte_of_size_le (by omega)]
    · rw [hsame]

theorem writes_storeHalf (i : Nat) (w : UInt16) :
    Writes (·.storeHalf i w) (Set.Ico i (i + 2)) :=
  ((writes_store (i + 1) _).comp (writes_store i _)).mono fun n hn => by
    obtain ⟨hlow, hhigh⟩ := hn
    simp only [Set.mem_union, Set.mem_singleton_iff]
    omega

theorem writes_storeWord (i : Nat) (w : UInt32) :
    Writes (·.storeWord i w) (Set.Ico i (i + 4)) :=
  ((writes_store (i + 3) _).comp ((writes_store (i + 2) _).comp
    ((writes_store (i + 1) _).comp (writes_store i _)))).mono fun n hn => by
    obtain ⟨hlow, hhigh⟩ := hn
    simp only [Set.mem_union, Set.mem_singleton_iff]
    omega

end Ram

namespace FramePool

open Ram (Writes)

variable (p : FramePool)

/-- Rewriting a record by what it was overwrites nothing. -/
theorem writes_updateRecord (i : Nat) (f : FrameRecord → FrameRecord) :
    Writes (fun ram => p.setRecord ram i (f (p.record ram i))) ∅ where
  size_eq ram := p.size_setRecord ram i _
  byte_congr {ram ram' n} hsize h := by
    have hsame := h.resolve_left (Set.notMem_empty n)
    unfold setRecord
    rw [Ram.byte_store, Ram.byte_store, hsize, hsame]
    by_cases hn : p.records.val + i = n
    · unfold record
      rw [hn, hsame]
    · simp [hn]

theorem writes_takeRun (i n : Nat) : Writes (p.takeRun · i n) ∅ := by
  induction n generalizing i with
  | zero => exact Writes.nothing
  | succ n ih =>
    have hfirst := p.writes_updateRecord i fun r =>
      if n = 0 then (r.set .allocated).unset .continues else (r.set .allocated).set .continues
    exact ((ih (i + 1)).comp hfirst).mono (Set.empty_subset _)

theorem writes_clearRun (i n : Nat) : Writes (p.clearRun · i n) ∅ := by
  induction n generalizing i with
  | zero => exact Writes.nothing
  | succ n ih =>
    have hfirst := p.writes_updateRecord i fun r => (r.unset .allocated).unset .continues
    exact ((ih (i + 1)).comp hfirst).mono (Set.empty_subset _)

end FramePool

end SoftPaging
