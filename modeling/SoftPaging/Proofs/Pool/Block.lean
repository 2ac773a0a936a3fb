import Mathlib
import SoftPaging.Frame.Pool

/-!
# Blocks of frames

A `Block` is a run of adjacent frames that was handed out at once. A pool is in order when its
records are those of a list of live blocks (`FramePool.Represents`): the blocks lie in the managed
frames and do not meet, a record is marked allocated for the reserved frames and those in a block,
it continues where the next frame is in the same block, and it has no other bit.

The boundaries of the blocks are nowhere in RAM but in those two bits, and still the records of a
list of blocks are determined by it (`Represents.record_eq`). So a pool whose live blocks are again
what they were has its records back byte for byte.
-/

namespace SoftPaging

/-- A run of adjacent frames. -/
structure Block where
  first : Nat
  count : Nat
deriving DecidableEq, Repr

namespace Block

/-- The frame just past the block. -/
def past (b : Block) : Nat := b.first + b.count

instance : Membership Nat Block := ⟨fun b i => b.first ≤ i ∧ i < b.past⟩

theorem mem_iff {i : Nat} {b : Block} : i ∈ b ↔ b.first ≤ i ∧ i < b.first + b.count := Iff.rfl

theorem mem_mk {i first count : Nat} :
    i ∈ (⟨first, count⟩ : Block) ↔ first ≤ i ∧ i < first + count := Iff.rfl

theorem mem_one {i f : Nat} : i ∈ (⟨f, 1⟩ : Block) ↔ i = f := by
  rw [mem_mk]
  omega

instance (i : Nat) (b : Block) : Decidable (i ∈ b) :=
  inferInstanceAs (Decidable (b.first ≤ i ∧ i < b.past))

/-- Frame `i` and the next one are both in the block. -/
def Links (b : Block) (i : Nat) : Prop := b.first ≤ i ∧ i + 1 < b.past

instance (b : Block) (i : Nat) : Decidable (b.Links i) :=
  inferInstanceAs (Decidable (b.first ≤ i ∧ i + 1 < b.past))

/-- The blocks have no frame in common. -/
def Apart (b c : Block) : Prop := b.past ≤ c.first ∨ c.past ≤ b.first

instance (b c : Block) : Decidable (b.Apart c) :=
  inferInstanceAs (Decidable (b.past ≤ c.first ∨ c.past ≤ b.first))

theorem Apart.symm {b c : Block} (h : b.Apart c) : c.Apart b := Or.symm h

instance : Std.Symm Apart := ⟨fun _ _ h => h.symm⟩

theorem Apart.not_mem {b c : Block} (h : b.Apart c) {i : Nat} (hi : i ∈ b) : i ∉ c := by
  rw [mem_iff] at hi ⊢
  unfold Apart past at h
  omega

/-- Blocks that are not empty are apart when they share no frame. -/
theorem apart_of_not_mem {b c : Block} (hb : 0 < b.count) (hc : 0 < c.count)
    (h : ∀ i ∈ b, i ∉ c) : b.Apart c := by
  by_contra hmeet
  unfold Apart past at hmeet
  -- the later of the two first frames is in both
  have hmem : max b.first c.first ∈ b := mem_iff.2 (by omega)
  exact h _ hmem (mem_iff.2 (by omega))

theorem Links.mem {b : Block} {i : Nat} (h : b.Links i) : i ∈ b := by
  rw [mem_iff]
  unfold Links past at h
  omega

/-- A block without the frame links it to no other. -/
theorem links_cons_of_not_mem {b : Block} {live : List Block} {i : Nat} (hi : i ∉ b) :
    (∃ c ∈ b :: live, c.Links i) ↔ ∃ c ∈ live, c.Links i := by
  have hb : ¬ b.Links i := fun hlink => hi hlink.mem
  rw [List.exists_mem_cons_iff, or_iff_right hb]

/-- The blocks lie in the frames that the pool hands out, and none is empty. -/
def Within (b : Block) (p : FramePool) : Prop :=
  p.reserved ≤ b.first ∧ 0 < b.count ∧ b.past ≤ p.total

instance (b : Block) (p : FramePool) : Decidable (b.Within p) :=
  inferInstanceAs (Decidable (p.reserved ≤ b.first ∧ 0 < b.count ∧ b.past ≤ p.total))

theorem Within.first_mem {b : Block} {p : FramePool} (h : b.Within p) : b.first ∈ b :=
  ⟨le_rfl, Nat.lt_add_of_pos_right h.2.1⟩

theorem Within.first_lt {b : Block} {p : FramePool} (h : b.Within p) : b.first < p.total :=
  Nat.lt_of_lt_of_le h.first_mem.2 h.2.2

end Block

/-- The frames of a list of blocks. -/
def framesOf (live : List Block) : Set Nat := {i | ∃ b ∈ live, i ∈ b}

theorem mem_framesOf {live : List Block} {i : Nat} :
    i ∈ framesOf live ↔ ∃ b ∈ live, i ∈ b := Iff.rfl

@[simp] theorem framesOf_nil : framesOf [] = ∅ := by
  ext i
  simp [mem_framesOf]

@[simp] theorem mem_framesOf_cons {b : Block} {live : List Block} {i : Nat} :
    i ∈ framesOf (b :: live) ↔ i ∈ b ∨ i ∈ framesOf live := by
  simp [mem_framesOf]

@[simp] theorem mem_framesOf_append {live live' : List Block} {i : Nat} :
    i ∈ framesOf (live ++ live') ↔ i ∈ framesOf live ∨ i ∈ framesOf live' := by
  simp [mem_framesOf, or_and_right, exists_or]

theorem mem_framesOf_self (f : Nat) (live : List Block) : f ∈ framesOf (⟨f, 1⟩ :: live) :=
  mem_framesOf_cons.2 (.inl (Block.mem_one.2 rfl))

theorem framesOf_perm {live live' : List Block} (h : live.Perm live') :
    framesOf live = framesOf live' := by
  ext i
  simp only [mem_framesOf, h.mem_iff]

instance (live : List Block) (i : Nat) : Decidable (i ∈ framesOf live) :=
  inferInstanceAs (Decidable (∃ b ∈ live, i ∈ b))

/-! ## Records of a list of blocks -/

namespace FrameRecord

/-- There are four records without bits that mean nothing. -/
theorem exists_ofNat {r : FrameRecord} (h : r.bits < 4) : ∃ a : Fin 4, r = ⟨.ofNat a⟩ := by
  obtain ⟨bits⟩ := r
  have hbits : bits.toNat < 4 := h
  exact ⟨⟨bits.toNat, hbits⟩, by rw [UInt8.ofNat_toNat]⟩

/-- A record without bits that mean nothing is determined by its two flags. -/
theorem eq_of_flags {r s : FrameRecord} (hr : r.bits < 4) (hs : s.bits < 4)
    (hallocated : r.isAllocated = s.isAllocated) (hcontinues : r.continues = s.continues) :
    r = s := by
  obtain ⟨a, rfl⟩ := exists_ofNat hr
  obtain ⟨b, rfl⟩ := exists_ofNat hs
  revert a b
  decide

theorem bits_set_lt {r : FrameRecord} (h : r.bits < 4) (flag : FrameFlag) :
    (r.set flag).bits < 4 := by
  obtain ⟨a, rfl⟩ := exists_ofNat h
  revert a
  cases flag <;> decide

theorem bits_unset_lt {r : FrameRecord} (h : r.bits < 4) (flag : FrameFlag) :
    (r.unset flag).bits < 4 := by
  obtain ⟨a, rfl⟩ := exists_ofNat h
  revert a
  cases flag <;> decide

end FrameRecord

namespace FramePool

/-- The records in RAM are those of the live blocks. -/
structure Represents (p : FramePool) (ram : Ram) (live : List Block) : Prop where
  within : ∀ b ∈ live, b.Within p
  apart : live.Pairwise Block.Apart
  allocated_iff : ∀ i < p.total,
    (p.record ram i).isAllocated = true ↔ i < p.reserved ∨ i ∈ framesOf live
  continues_iff : ∀ i < p.total, (p.record ram i).continues = true ↔ ∃ b ∈ live, b.Links i
  bits_lt : ∀ i < p.total, (p.record ram i).bits < 4

namespace Represents

variable {p : FramePool} {ram ram' : Ram} {live live' : List Block}

/-- The order of the blocks does not matter. -/
theorem perm (h : p.Represents ram live) (hperm : live.Perm live') : p.Represents ram live' where
  within b hb := h.within b (hperm.mem_iff.2 hb)
  apart := (hperm.pairwise_iff Block.Apart.symm).1 h.apart
  allocated_iff i hi := by rw [h.allocated_iff i hi, framesOf_perm hperm]
  continues_iff i hi := by simp only [h.continues_iff i hi, hperm.mem_iff]
  bits_lt := h.bits_lt

/-- The live blocks are a matter of the records alone. -/
theorem congr (h : p.Represents ram live)
    (hsame : ∀ i < p.total, p.record ram' i = p.record ram i) : p.Represents ram' live where
  within := h.within
  apart := h.apart
  allocated_iff i hi := by rw [hsame i hi, h.allocated_iff i hi]
  continues_iff i hi := by rw [hsame i hi, h.continues_iff i hi]
  bits_lt i hi := by rw [hsame i hi]; exact h.bits_lt i hi

/-- The records are a matter of the live blocks alone. -/
theorem record_eq (h : p.Represents ram live) (h' : p.Represents ram' live) {i : Nat}
    (hi : i < p.total) : p.record ram' i = p.record ram i := by
  apply FrameRecord.eq_of_flags (h'.bits_lt i hi) (h.bits_lt i hi)
  · rw [Bool.eq_iff_iff, h'.allocated_iff i hi, h.allocated_iff i hi]
  · rw [Bool.eq_iff_iff, h'.continues_iff i hi, h.continues_iff i hi]

theorem frame_bounds (h : p.Represents ram live) {i : Nat} (hi : i ∈ framesOf live) :
    p.reserved ≤ i ∧ i < p.total := by
  obtain ⟨b, hb, hib⟩ := hi
  obtain ⟨hfirst, -, hpast⟩ := h.within b hb
  rw [Block.mem_iff] at hib
  unfold Block.past at hpast
  omega

/-- A frame is free when it is handed out by the pool and in no block. -/
theorem isFree_iff (h : p.Represents ram live) {i : Nat} (hi : i < p.total) :
    p.isFree ram i = true ↔ p.reserved ≤ i ∧ i ∉ framesOf live := by
  unfold isFree
  rw [Bool.not_eq_true', ← Bool.not_eq_true, h.allocated_iff i hi]
  push Not
  rfl

/-- Blocks at different places of the list share no frame. -/
theorem disjoint_of_append (h : p.Represents ram (live ++ live')) {i : Nat}
    (hi : i ∈ framesOf live) : i ∉ framesOf live' := by
  rintro ⟨c, hc, hic⟩
  obtain ⟨b, hb, hib⟩ := hi
  exact ((List.pairwise_append.1 h.apart).2.2 b hb c hc).not_mem hib hic

/-- Two live blocks with a frame in common are one. -/
theorem eq_of_mem (h : p.Represents ram live) {b c : Block} (hb : b ∈ live) (hc : c ∈ live)
    {i : Nat} (hib : i ∈ b) (hic : i ∈ c) : b = c := by
  by_contra hne
  exact (h.apart.forall hb hc hne).not_mem hib hic

/-- A frame that is still in the block it was in is linked to the next one if it was. -/
theorem continues_of (h : p.Represents ram live) (h' : p.Represents ram' live') {i : Nat}
    (hi : i < p.total) (hblocks : ∀ b ∈ live, ∀ b' ∈ live', i ∈ b → i ∈ b' → b = b')
    (hfree : p.isFree ram' i = p.isFree ram i) (hlink : (p.record ram i).continues = true) :
    (p.record ram' i).continues = true := by
  obtain ⟨b, hb, hlinks⟩ := (h.continues_iff i hi).1 hlink
  have hlow := (h.frame_bounds ⟨b, hb, hlinks.mem⟩).1
  have hlive' : i ∈ framesOf live' := by
    by_contra hout
    rw [(h'.isFree_iff hi).2 ⟨hlow, hout⟩] at hfree
    exact ((h.isFree_iff hi).1 hfree.symm).2 ⟨b, hb, hlinks.mem⟩
  obtain ⟨b', hb', hmem⟩ := hlive'
  obtain rfl := hblocks b hb b' hb' hlinks.mem hmem
  exact (h'.continues_iff i hi).2 ⟨b, hb', hlinks⟩

/-- As long as no frame goes from one block to another, a record changes only when its frame is handed
out or taken back. -/
theorem isFree_ne (h : p.Represents ram live) (h' : p.Represents ram' live') {i : Nat}
    (hi : i < p.total) (hblocks : ∀ b ∈ live, ∀ b' ∈ live', i ∈ b → i ∈ b' → b = b')
    (hne : p.record ram' i ≠ p.record ram i) : p.isFree ram' i ≠ p.isFree ram i := by
  intro hfree
  apply hne
  apply FrameRecord.eq_of_flags (h'.bits_lt i hi) (h.bits_lt i hi)
  · exact Bool.not_inj hfree
  · have hback : ∀ b' ∈ live', ∀ b ∈ live, i ∈ b' → i ∈ b → b' = b :=
      fun b' hb' b hb hib' hib => (hblocks b hb b' hb' hib hib').symm
    exact Bool.eq_iff_iff.2
      ⟨h'.continues_of h hi hback hfree.symm, h.continues_of h' hi hblocks hfree⟩

end Represents

end FramePool

end SoftPaging
