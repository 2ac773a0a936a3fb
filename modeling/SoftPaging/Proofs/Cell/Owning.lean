import Mathlib
import SoftPaging.Proofs.Pool.Holding

/-!
# What cells own

A cell owns its frame and whatever the value in it owns. `Owning` says of a type of value which blocks
its values own, as RAM shows them, and what has to be known of the type so that cells can be made of
it: a value that was stored is loaded again, it depends on no other frame than the one it lies in and
those it owns, and giving it back is always done and writes to no frame that stays owned.

Numbers own nothing. A cell that may be missing owns what the cell does, so that a cell may hold
another to any depth.
-/

namespace SoftPaging

open Outcome

/-- Types of value of which it is known what they own. -/
class Owning (α : Type) [Stored α] where
  /-- The blocks that a value owns. -/
  blocksIn : Ram → α → List Block
  /-- The frames that a value owns are named by the addresses of their first bytes. -/
  Aligned : Ram → α → Prop
  congr : ∀ {ram ram' : Ram} {v : α}, ram.SameBlocks ram' (blocksIn ram v) → Aligned ram v →
    blocksIn ram' v = blocksIn ram v ∧ Aligned ram' v
  load_congr : ∀ {ram ram' : Ram} {f : Nat}, ram.SameFrame ram' f →
    (Stored.load ram' (f * pageSize) : α) = Stored.load ram (f * pageSize)
  load_store : ∀ {ram : Ram} {f : Nat} {v : α}, f * pageSize + pageSize ≤ ram.size →
    (∀ b ∈ blocksIn ram v, 0 < b.first) →
      Stored.load (Stored.store ram (f * pageSize) v) (f * pageSize) = v
  sameOff_store : ∀ (ram : Ram) (f : Nat) (v : α),
    ram.SameOff (Stored.store ram (f * pageSize) v) f
  release_done : ∀ {k : Kernel} {p : FramePool} {v : α} {rest : List Block}, Aligned k.ram v →
    k.Holds p (blocksIn k.ram v ++ rest) → ∃ k', (Stored.release v).run k = .done () k' ∧
      k'.Holds p rest ∧ Kernel.Touches p ∅ k k'

namespace FrameCell

variable {α : Type} [Stored α] [Owning α]

/-- The blocks that a cell owns: its frame, and what its value owns. -/
def blocksIn (ram : Ram) (c : FrameCell α) : List Block :=
  ⟨c.frame.number.val, 1⟩ :: Owning.blocksIn ram (Stored.load ram c.frame.val : α)

/-- The frames that a cell owns are named by the addresses of their first bytes. -/
def Aligned (ram : Ram) (c : FrameCell α) : Prop :=
  c.frame.isPageAligned = true ∧ Owning.Aligned ram (Stored.load ram c.frame.val : α)

variable {ram ram' : Ram} {c : FrameCell α} {k : Kernel} {p : FramePool} {rest : List Block}

theorem load_eq_of_sameFrame (h : c.frame.isPageAligned = true)
    (hsame : ram.SameFrame ram' c.frame.number.val) :
    (Stored.load ram' c.frame.val : α) = Stored.load ram c.frame.val := by
  rw [Address.val_eq_of_aligned h]
  exact Owning.load_congr hsame

/-- What a cell owns is told by the frames it owns. -/
theorem congr (hsame : ram.SameBlocks ram' (c.blocksIn ram)) (h : c.Aligned ram) :
    c.blocksIn ram' = c.blocksIn ram ∧ c.Aligned ram' := by
  have hload : (Stored.load ram' c.frame.val : α) = Stored.load ram c.frame.val :=
    load_eq_of_sameFrame h.1 (hsame _ (mem_framesOf_self _ _))
  have hvalue := Owning.congr (v := (Stored.load ram c.frame.val : α))
    (fun f hf => hsame f (mem_framesOf_cons.2 (.inr hf))) h.2
  unfold blocksIn Aligned
  rw [hload]
  exact ⟨congrArg _ hvalue.1, h.1, hvalue.2⟩

theorem run_reachFrame (h : c.Aligned k.ram) (hk : k.Holds p (c.blocksIn k.ram ++ rest)) :
    (Op.reachFrame c.frame).run k = .done () k := by
  rw [← frameAt_number h.1]
  exact hk.run_reachFrame (mem_framesOf_append.2 (.inl (mem_framesOf_self _ _)))

theorem number_le (hk : k.Holds p (c.blocksIn k.ram ++ rest)) :
    p.reserved ≤ c.frame.number.val :=
  (hk.frame_bounds (mem_framesOf_append.2 (.inl (mem_framesOf_self _ _)))).1

theorem run_read (h : c.Aligned k.ram) (hk : k.Holds p (c.blocksIn k.ram ++ rest)) :
    c.read.run k = .done (Stored.load k.ram c.frame.val) k := by
  unfold read
  rw [Transition.run_bind, run_reachFrame h hk, andThen_done, Op.run_look]

/-- Releasing a cell gives back what it owns and writes to no frame. -/
theorem release_done (h : c.Aligned k.ram) (hk : k.Holds p (c.blocksIn k.ram ++ rest)) :
    ∃ k', c.release.run k = .done () k' ∧ k'.Holds p rest ∧ Kernel.Touches p ∅ k k' := by
  have hvalue : k.Holds p (Owning.blocksIn k.ram (Stored.load k.ram c.frame.val : α) ++
      (⟨c.frame.number.val, 1⟩ :: rest)) := hk.perm List.perm_middle.symm
  obtain ⟨k', hrun, hholds, htouches⟩ := Owning.release_done h.2 hvalue
  have hfree := hholds.run_freeOwned
  rw [frameAt_number h.1] at hfree
  refine ⟨_, ?_, hholds.takeBack, htouches.trans (Kernel.Touches.takeBack hholds.toLends ∅)⟩
  unfold release
  simp only [Transition.run_bind, run_read h hk, andThen_done, hrun]
  exact hfree

end FrameCell

/-! ## Numbers -/

theorem Ram.sameOff_store (ram : Ram) {f i : Nat} (v : UInt8) (hi : i / pageSize = f) :
    ram.SameOff (ram.store i v) f where
  size_eq := size_store _ _ _
  byte_eq j hj := by
    rw [byte_store, if_neg]
    rintro ⟨rfl, -⟩
    exact hj hi

instance : Owning UInt8 where
  blocksIn _ _ := []
  Aligned _ _ := True
  congr _ _ := ⟨rfl, trivial⟩
  load_congr hsame := hsame.byte le_rfl (Nat.lt_add_of_pos_right (by decide))
  load_store {ram f v} hsize _ := by
    have hlt : f * pageSize < ram.size := Nat.lt_of_lt_of_le (Nat.lt_add_of_pos_right (by decide)) hsize
    exact (Ram.byte_store ram _ _ v).trans (if_pos ⟨rfl, hlt⟩)
  sameOff_store ram f v := ram.sameOff_store v (Nat.mul_div_cancel f (by decide))
  release_done _ hk := ⟨_, rfl, hk, Kernel.Touches.refl _ _ _⟩

instance : Owning UInt32 where
  blocksIn _ _ := []
  Aligned _ _ := True
  congr _ _ := ⟨rfl, trivial⟩
  load_congr hsame := Ram.word_congr fun j hlow hhigh =>
    hsame.byte hlow (Nat.lt_of_lt_of_le hhigh (Nat.add_le_add_left (by decide) _))
  load_store hsize _ :=
    Ram.word_storeWord_self _ _ (Nat.le_trans (Nat.add_le_add_left (by decide) _) hsize)
  sameOff_store ram f v :=
    ram.sameOff_storeWord v le_rfl (Nat.add_le_add_left (by decide) _)
  release_done _ hk := ⟨_, rfl, hk, Kernel.Touches.refl _ _ _⟩

/-! ## Arrays -/

namespace Ram

theorem half_congr {r s : Ram} {i : Nat} (h : ∀ j, i ≤ j → j < i + 2 → r.byte j = s.byte j) :
    r.half i = s.half i := by
  unfold half
  rw [h i (by omega) (by omega), h (i + 1) (by omega) (by omega)]

theorem sameOff_storeHalf (ram : Ram) {f i : Nat} (w : UInt16) (hlow : f * pageSize ≤ i)
    (hhigh : i + 2 ≤ f * pageSize + pageSize) : ram.SameOff (ram.storeHalf i w) f where
  size_eq := size_storeHalf _ _ _
  byte_eq j hj := byte_storeHalf_of_disjoint ram w (by simp only [pageSize] at *; omega)

theorem half_storeHalf_of_disjoint (r : Ram) {i j : Nat} (w : UInt16) (h : j + 2 ≤ i ∨ i + 2 ≤ j) :
    (r.storeHalf i w).half j = r.half j :=
  half_congr fun _ hlow hhigh => byte_storeHalf_of_disjoint r w (by omega)

variable {f : Nat} {v : Fin 2048 → UInt16}

/-- Storing elements of an array writes to one frame only. -/
theorem sameOff_foldl_storeHalf : ∀ (js : List (Fin 2048)) (ram : Ram),
    ram.SameOff (js.foldl (fun ram j => ram.storeHalf (f * pageSize + 2 * j.val) (v j)) ram) f
  | [], ram => ⟨rfl, fun _ _ => rfl⟩
  | j :: js, ram => by
    have hj := j.isLt
    have hhere := ram.sameOff_storeHalf (f := f) (i := f * pageSize + 2 * j.val) (v j)
      (Nat.le_add_right _ _) (by simp only [pageSize]; omega)
    have hrest := sameOff_foldl_storeHalf js (ram.storeHalf (f * pageSize + 2 * j.val) (v j))
    exact ⟨hrest.size_eq.trans hhere.size_eq,
      fun x hx => (hrest.byte_eq x hx).trans (hhere.byte_eq x hx)⟩

/-- Each element of an array that was stored is read back. -/
theorem half_foldl_storeHalf (j : Fin 2048) : ∀ (js : List (Fin 2048)) (ram : Ram), js.Nodup →
    f * pageSize + pageSize ≤ ram.size →
    (js.foldl (fun ram j => ram.storeHalf (f * pageSize + 2 * j.val) (v j)) ram).half
        (f * pageSize + 2 * j.val) =
      if j ∈ js then v j else ram.half (f * pageSize + 2 * j.val)
  | [], _, _, _ => (if_neg List.not_mem_nil).symm
  | j' :: js, ram, hnodup, hsize => by
    obtain ⟨hout, hjs⟩ := List.nodup_cons.1 hnodup
    have hj := j.isLt
    have hrest := half_foldl_storeHalf j js (ram.storeHalf (f * pageSize + 2 * j'.val) (v j')) hjs
      (by rw [size_storeHalf]; exact hsize)
    rw [List.foldl_cons, hrest]
    by_cases heq : j = j'
    · subst heq
      rw [if_neg hout, if_pos List.mem_cons_self, half_storeHalf_self]
      simp only [pageSize] at hsize ⊢
      omega
    · have hne : j.val ≠ j'.val := fun hval => heq (Fin.ext hval)
      rw [half_storeHalf_of_disjoint _ _ (by omega)]
      simp [List.mem_cons, heq]

end Ram

theorem Halves.store_eq (ram : Ram) (i : Nat) (v : Halves) : Stored.store ram i v =
    (List.finRange 2048).foldl (fun ram j => ram.storeHalf (i + 2 * j.val) (v.get j)) ram := rfl

theorem Halves.load_store {ram : Ram} {f : Nat} {v : Halves}
    (hsize : f * pageSize + pageSize ≤ ram.size) :
    Stored.load (Stored.store ram (f * pageSize) v) (f * pageSize) = v := by
  refine Vector.ext fun j hj => ?_
  have hread := Ram.half_foldl_storeHalf (v := v.get) ⟨j, hj⟩ (List.finRange 2048) ram
    (List.nodup_finRange _) hsize
  rw [if_pos (List.mem_finRange _), ← store_eq] at hread
  exact (Vector.getElem_ofFn hj).trans hread

instance : Owning Halves where
  blocksIn _ _ := []
  Aligned _ _ := True
  congr _ _ := ⟨rfl, trivial⟩
  load_congr {ram ram' f} hsame := by
    have hhalf (j : Fin 2048) : ram'.half (f * pageSize + 2 * j.val) =
        ram.half (f * pageSize + 2 * j.val) := Ram.half_congr fun x hlow hhigh => by
      have hj := j.isLt
      refine hsame.byte (Nat.le_trans (Nat.le_add_right _ _) hlow) ?_
      simp only [pageSize] at hhigh ⊢
      omega
    exact congrArg Vector.ofFn (funext hhalf)
  load_store hsize _ := Halves.load_store hsize
  sameOff_store ram f v := Halves.store_eq ram _ v ▸ Ram.sameOff_foldl_storeHalf _ ram
  release_done _ hk := ⟨_, rfl, hk, Kernel.Touches.refl _ _ _⟩

/-! ## Cells in cells -/

instance {α : Type} [Stored α] [Owning α] : Owning (Option (FrameCell α)) where
  blocksIn ram
    | some c => c.blocksIn ram
    | none => []
  Aligned ram
    | some c => c.Aligned ram
    | none => True
  congr {_ _ v} hsame h := by
    cases v with
    | some c => exact FrameCell.congr hsame h
    | none => exact ⟨rfl, trivial⟩
  load_congr {ram ram' f} hsame := by
    have hword : ram'.word (f * pageSize) = ram.word (f * pageSize) := Ram.word_congr
      fun j hlow hhigh => hsame.byte hlow (Nat.lt_of_lt_of_le hhigh (Nat.add_le_add_left (by decide) _))
    change (if ram'.word (f * pageSize) = 0 then none else some _) = (if _ then _ else _)
    rw [hword]
  load_store {ram f v} hsize hpos := by
    have hle : f * pageSize + 4 ≤ ram.size :=
      Nat.le_trans (Nat.add_le_add_left (by decide) _) hsize
    cases v with
    | none =>
      exact if_pos (Ram.word_storeWord_self ram 0 hle)
    | some c =>
      -- frame zero is never owned, so the word of the frame is not that of none
      have hnumber : 0 < c.frame.number.val := hpos _ List.mem_cons_self
      have hword : c.frame.toWord ≠ 0 := by
        intro hzero
        rw [Address.number_val, Address.toWord_eq_zero.1 hzero] at hnumber
        exact absurd hnumber (by decide)
      have hread := Ram.word_storeWord_self ram c.frame.toWord hle
      change (if (ram.storeWord (f * pageSize) c.frame.toWord).word (f * pageSize) = 0 then none
        else some ⟨.ofWord ((ram.storeWord (f * pageSize) c.frame.toWord).word (f * pageSize))⟩) =
          some c
      rw [hread, if_neg hword, Address.ofWord_toWord]
  sameOff_store ram f v :=
    ram.sameOff_storeWord _ le_rfl (Nat.add_le_add_left (by decide) _)
  release_done {k p v rest} h hk := by
    cases v with
    | some c => exact FrameCell.release_done h hk
    | none => exact ⟨_, rfl, hk, Kernel.Touches.refl _ _ _⟩

end SoftPaging
