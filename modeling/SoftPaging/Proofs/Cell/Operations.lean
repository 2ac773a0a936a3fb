import Mathlib
import SoftPaging.Proofs.Cell.Owning

/-!
# Operations on cells

Making a cell moves a value into a frame of its own, and storing a value in a cell releases the one
that was there. In both the cell owns afterwards what the value owned, besides its own frame. A value
for which there is no frame is given back. None of this touches a frame of anybody else.
-/

namespace SoftPaging

open Outcome

namespace FrameCell

variable {α : Type} [Stored α] [Owning α] {c : FrameCell α} {k : Kernel} {p : FramePool}
  {rest : List Block} {f : Nat} {v : α}

/-- The cell is owned, next to the blocks of others, which are as they were. -/
structure Owned (c : FrameCell α) (p : FramePool) (rest : List Block) (k k' : Kernel) : Prop where
  aligned : c.Aligned k'.ram
  holds : k'.Holds p (c.blocksIn k'.ram ++ rest)
  same : k.ram.SameBlocks k'.ram rest
  touches : Kernel.Touches p {c.frame.number.val} k k'

/-- A value that was stored in a frame that is owned besides it is read back. -/
theorem load_stored (hk : k.Holds p (⟨f, 1⟩ :: (Owning.blocksIn k.ram v ++ rest))) :
    (Stored.load (Stored.store k.ram (f * pageSize) v) (f * pageSize) : α) = v := by
  refine Owning.load_store (hk.frame_le (mem_framesOf_self _ _)) fun b hb => ?_
  have hwithin := hk.represents.within b (List.mem_cons_of_mem _ (List.mem_append_left _ hb))
  exact Nat.lt_of_lt_of_le hk.sound.reserved_pos hwithin.1

/-- Storing a value in a frame that is owned makes it a cell that owns what the value owned. -/
theorem owned_store (hv : Owning.Aligned k.ram v)
    (hk : k.Holds p (⟨f, 1⟩ :: (Owning.blocksIn k.ram v ++ rest))) :
    (FrameCell.mk (frameAt f) : FrameCell α).Owned p rest k
      (k.mapRam fun ram => Stored.store ram (f * pageSize) v) := by
  have hmem := mem_framesOf_self f (Owning.blocksIn k.ram v ++ rest)
  have hlt := hk.frame_lt hmem
  have hoff := Owning.sameOff_store k.ram f v
  have hsame {g : Nat} (hg : g ∈ framesOf (Owning.blocksIn k.ram v ++ rest)) :
      k.ram.SameFrame (Stored.store k.ram (f * pageSize) v) g :=
    fun j hj => hoff.byte_eq j (hj ▸ hk.ne_of_mem hg)
  have hload := load_stored hk
  have hvalue := Owning.congr (v := v)
    (fun g hg => hsame (mem_framesOf_append.2 (.inl hg))) hv
  constructor
  · rw [Kernel.ram_mapRam]
    refine ⟨isPageAligned_frameAt hlt, ?_⟩
    rw [val_frameAt hlt, hload]
    exact hvalue.2
  · rw [Kernel.ram_mapRam]
    unfold blocksIn
    rw [val_frameAt hlt, hload, hvalue.1, number_frameAt hlt]
    exact hk.mapRam hoff (hk.frame_bounds hmem).1
  · rw [Kernel.ram_mapRam]
    exact fun g hg => hsame (mem_framesOf_append.2 (.inr hg))
  · exact Kernel.Touches.mapRam k hoff (number_frameAt hlt).symm

/-- A new cell owns what its value owned, and lies in a frame that was spare; a value that found none
is given back. -/
theorem new_owned (hv : Owning.Aligned k.ram v) (hk : k.Holds p (Owning.blocksIn k.ram v ++ rest)) :
    ((new v).run k).Meets
      (fun c k' => c.Owned p rest k k' ∧
        c.frame.number.val ∈ p.spare (Owning.blocksIn k.ram v ++ rest))
      (fun cause k' => cause = .outOfMemory ∧ (k'.Holds p rest ∧ k.ram.SameBlocks k'.ram rest) ∧
        Kernel.Touches p ∅ k k' ∧ p.spare (Owning.blocksIn k.ram v ++ rest) = ∅)
      never := by
  unfold new
  rcases p.spare_cases (Owning.blocksIn k.ram v ++ rest) with hnone | ⟨f, hf⟩
  · obtain ⟨k', hrun, hholds, htouches⟩ := Owning.release_done (k := k.push (.noRun 1)) hv (hk.push _)
    have hsame := (hk.push (.noRun 1)).sameBlocks htouches (Set.empty_subset _)
    rw [Transition.run_bind, Transition.run_onRefusal, hk.run_takeFrame_exhausted hnone]
    simp only [hrun, andThen_done, andThen_refused]
    exact .refused ⟨rfl, ⟨hholds, hsame⟩, (Kernel.Touches.push p ∅ k _).trans htouches, hnone⟩
  · have hlend := hk.lend hf
    have hmem := mem_framesOf_self f (Owning.blocksIn k.ram v ++ rest)
    have hval := val_frameAt (hlend.frame_lt hmem)
    have hreject := hlend.rejectFrameZero hmem
    have hlent := Kernel.Touches.lend p ∅ k (b := ⟨f, 1⟩) hf.1.2.1
    have hnothing : k.Holds p ([] ++ (Owning.blocksIn k.ram v ++ rest)) := hk
    have hsame := hnothing.sameBlocks hlent (Set.empty_subset _)
    have hvalue := Owning.congr (v := v) (fun g hg => hsame g (mem_framesOf_append.2 (.inl hg))) hv
    rw [← hvalue.1] at hlend
    have howned := owned_store hvalue.2 hlend
    rw [Transition.run_bind, Transition.run_onRefusal, hk.run_takeFrame hf]
    simp only [andThen_done, Transition.run_bind, Op.run_onRam, hreject, Transition.run_pure, hval]
    refine .done ⟨⟨howned.aligned, howned.holds,
      (hsame.mono fun g hg => mem_framesOf_append.2 (.inr hg)).trans howned.same,
      (hlent.mono (Set.empty_subset _)).trans howned.touches⟩, ?_⟩
    rw [number_frameAt (hk.sound.frame_lt hf.1.2.1)]
    exact hf.1

/-- Storing a value in a cell releases the one that was there. -/
theorem replace_owned (h : c.Aligned k.ram) (hv : Owning.Aligned k.ram v)
    (hk : k.Holds p (c.blocksIn k.ram ++ (Owning.blocksIn k.ram v ++ rest))) :
    ∃ k', (c.replace v).run k = .done () k' ∧ c.Owned p rest k k' := by
  have hold : k.Holds p (Owning.blocksIn k.ram (Stored.load k.ram c.frame.val : α) ++
      (⟨c.frame.number.val, 1⟩ :: (Owning.blocksIn k.ram v ++ rest))) :=
    hk.perm List.perm_middle.symm
  obtain ⟨k₁, hrun, hholds, htouches⟩ := Owning.release_done h.2 hold
  have hsame := hold.sameBlocks htouches (Set.empty_subset _)
  have hvalue := Owning.congr (v := v)
    (fun g hg => hsame g (mem_framesOf_cons.2 (.inr (mem_framesOf_append.2 (.inl hg))))) hv
  rw [← hvalue.1] at hholds
  have howned := owned_store hvalue.2 hholds
  rw [frameAt_number h.1] at howned
  refine ⟨_, ?_, howned.aligned, howned.holds, (hsame.mono fun g hg =>
    mem_framesOf_cons.2 (.inr (mem_framesOf_append.2 (.inr hg)))).trans howned.same,
    (htouches.mono (Set.empty_subset _)).trans howned.touches⟩
  unfold replace
  simp only [Transition.run_bind, run_read h hk, andThen_done, hrun, Op.run_onRam]
  rw [Address.val_eq_of_aligned h.1]

/-- Storing an element of an array keeps to the frame of the array. -/
theorem setElement_owned {c : FrameCell Halves} (h : c.Aligned k.ram)
    (hk : k.Holds p (c.blocksIn k.ram ++ rest)) (i : Nat) (w : UInt16) :
    ((c.setElement i w).run k).Meets (fun _ k' => c.Owned p rest k k') (fun _ _ => False)
      (fun cause => cause = .indexOutOfBounds 2048 i) := by
  have hmem : c.frame.number.val ∈ framesOf (c.blocksIn k.ram ++ rest) :=
    mem_framesOf_append.2 (.inl (mem_framesOf_self _ _))
  unfold setElement
  rw [Transition.run_bind, run_reachFrame h hk, andThen_done]
  rcases Nat.lt_or_ge i 2048 with hi | hi
  · have hoff : k.ram.SameOff (k.ram.storeHalf (c.frame.val + 2 * i) w) c.frame.number.val := by
      rw [Address.val_eq_of_aligned h.1]
      exact k.ram.sameOff_storeHalf w (Nat.le_add_right _ _) (by simp only [pageSize]; omega)
    rw [checkedIndex_of_lt hi]
    refine .done ⟨⟨h.1, trivial⟩, hk.mapRam hoff (hk.frame_bounds hmem).1, fun g hg j hj => ?_,
      Kernel.Touches.mapRam k hoff rfl⟩
    exact hoff.byte_eq j (hj ▸ hk.ne_of_mem hg)
  · have hindex : checkedIndex 2048 i = .error (.indexOutOfBounds 2048 i) :=
      dif_neg (Nat.not_lt.2 hi)
    rw [hindex]
    exact .halted rfl

end FrameCell

end SoftPaging
