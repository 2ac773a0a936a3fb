import Mathlib
import SoftPaging.Proofs.Pool.Holding

/-!
# Frames that were taken

Which frames may be handed out next is a matter of the records (`FramePool.free`). Frames that are
taken one at a time are marked allocated and not linked to the next frame, and the records of all other
frames stay (`FramePool.Lent`).
-/

namespace SoftPaging

/-- The record of a frame that was taken on its own. -/
def FrameRecord.taken : FrameRecord := clear.set .allocated

namespace FramePool

variable {p : FramePool} {ram ram' : Ram} {live : List Block}

/-- The frames that the records say may be handed out. -/
def free (p : FramePool) (ram : Ram) : Set Nat :=
  {i | p.reserved ≤ i ∧ i < p.total ∧ p.isFree ram i = true}

theorem Represents.free_eq (h : p.Represents ram live) : p.free ram = p.spare live := by
  ext i
  simp only [free, mem_spare, Set.mem_ofPred_eq]
  constructor
  · rintro ⟨hlow, hhigh, hfree⟩
    exact ⟨hlow, hhigh, ((h.isFree_iff hhigh).1 hfree).2⟩
  · rintro ⟨hlow, hhigh, hout⟩
    exact ⟨hlow, hhigh, (h.isFree_iff hhigh).2 ⟨hlow, hout⟩⟩

/-- When blocks are given back, their frames are free, and no others. -/
theorem Represents.spare_append {own rest : List Block} (h : p.Represents ram (own ++ rest)) :
    p.spare rest = p.spare (own ++ rest) ∪ framesOf own := by
  ext i
  rw [Set.mem_union, mem_spare, mem_spare, mem_framesOf_append]
  constructor
  · intro ⟨hlow, hhigh, hout⟩
    by_cases hown : i ∈ framesOf own
    · exact .inr hown
    · exact .inl ⟨hlow, hhigh, fun hmem => hmem.elim hown hout⟩
  · intro hmem
    rcases hmem with ⟨hlow, hhigh, hout⟩ | hown
    · exact ⟨hlow, hhigh, fun hrest => hout (.inr hrest)⟩
    · have hbounds := h.frame_bounds (mem_framesOf_append.2 (.inl hown))
      exact ⟨hbounds.1, hbounds.2, h.disjoint_of_append hown⟩

/-- Each of the frames was taken on its own, and no other record has changed. -/
def Lent (p : FramePool) (ram ram' : Ram) (fs : List Nat) : Prop :=
  ∀ i < p.total, p.record ram' i = if i ∈ fs then .taken else p.record ram i

/-- Each of the frames as a block. -/
def singles (fs : List Nat) : List Block := fs.map fun f => ⟨f, 1⟩

theorem mem_framesOf_singles {fs : List Nat} {i : Nat} : i ∈ framesOf (singles fs) ↔ i ∈ fs := by
  simp [singles, mem_framesOf, Block.mem_one]

theorem not_links_of_mem_singles {fs : List Nat} {b : Block} (hb : b ∈ singles fs) (i : Nat) :
    ¬ b.Links i := by
  obtain ⟨f, -, rfl⟩ := List.mem_map.1 hb
  simp only [Block.Links, Block.past]
  omega

/-- Frames that are handed out besides were taken one by one. -/
theorem Represents.lent {fs : List Nat} (h : p.Represents ram live)
    (h' : p.Represents ram' (singles fs ++ live)) : p.Lent ram ram' fs := by
  intro i hi
  have hlinks : (∃ b ∈ singles fs ++ live, b.Links i) ↔ ∃ b ∈ live, b.Links i := by
    simp only [List.mem_append, or_and_right, exists_or]
    exact or_iff_right fun ⟨b, hb, hlink⟩ => not_links_of_mem_singles hb i hlink
  have hcontinues : (p.record ram' i).continues = true ↔ (p.record ram i).continues = true := by
    rw [h'.continues_iff i hi, hlinks, h.continues_iff i hi]
  split
  · next hmem =>
    have hin := mem_framesOf_singles.2 hmem
    have hout : (p.record ram' i).continues = false := by
      rw [Bool.eq_false_iff, ne_eq, h'.continues_iff i hi, hlinks]
      rintro ⟨b, hb, hlink⟩
      exact h'.disjoint_of_append hin ⟨b, hb, hlink.mem⟩
    refine FrameRecord.eq_of_flags (h'.bits_lt i hi) (by decide) ?_ (by rw [hout]; rfl)
    rw [(h'.allocated_iff i hi).2 (.inr (mem_framesOf_append.2 (.inl hin)))]
    rfl
  · next hmem =>
    refine FrameRecord.eq_of_flags (h'.bits_lt i hi) (h.bits_lt i hi) ?_ (Bool.eq_iff_iff.2 hcontinues)
    rw [Bool.eq_iff_iff, h'.allocated_iff i hi, h.allocated_iff i hi, mem_framesOf_append,
      mem_framesOf_singles, or_iff_right hmem]

end FramePool

end SoftPaging
