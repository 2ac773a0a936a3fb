import Mathlib
import SoftPaging.Proofs.Pool.Block

/-!
# Counting frames

The pool counts free and allocated frames by going through its records. When the records are those
of a list of live blocks, the frames handed out are the sum of what the blocks have
(`Represents.allocatedFrames_eq`), and every managed frame is reserved, handed out or free
(`Represents.count_partition`).
-/

namespace SoftPaging

/-- How many frames the blocks have together. -/
def frameCount (live : List Block) : Nat := (live.map Block.count).sum

@[simp] theorem frameCount_nil : frameCount [] = 0 := rfl

@[simp] theorem frameCount_cons (b : Block) (live : List Block) :
    frameCount (b :: live) = b.count + frameCount live := by
  simp [frameCount]

@[simp] theorem frameCount_append (live live' : List Block) :
    frameCount (live ++ live') = frameCount live + frameCount live' := by
  simp [frameCount]

theorem frameCount_perm {live live' : List Block} (h : live.Perm live') :
    frameCount live = frameCount live' :=
  (h.map Block.count).sum_eq

/-- Of the numbers from `s` up to `s + n`, those in a block inside that range are as many as the
block has. -/
theorem countP_range'_block {b : Block} {s n : Nat} (hs : s ≤ b.first) (hn : b.past ≤ s + n) :
    (List.range' s n).countP (· ∈ b) = b.count := by
  unfold Block.past at hn
  have hsplit : List.range' s n =
      List.range' s (b.first - s) ++ (List.range' b.first b.count ++
        List.range' (b.first + b.count) (s + n - (b.first + b.count))) := by
    have h1 := List.range'_append_1 (s := s) (m := b.first - s)
      (n := b.count + (s + n - (b.first + b.count)))
    have h2 := List.range'_append_1 (s := b.first) (m := b.count)
      (n := s + n - (b.first + b.count))
    rw [show s + (b.first - s) = b.first by omega] at h1
    rw [h2, h1]
    congr 1
    omega
  have hbelow : (List.range' s (b.first - s)).countP (· ∈ b) = 0 := by
    refine List.countP_eq_zero.2 fun i hi => ?_
    rw [List.mem_range'_1] at hi
    simp only [Block.mem_iff, decide_eq_true_eq]
    omega
  have hin : (List.range' b.first b.count).countP (· ∈ b) = b.count := by
    have hall : (List.range' b.first b.count).countP (· ∈ b) =
        (List.range' b.first b.count).length := by
      refine List.countP_eq_length.2 fun i hi => ?_
      rw [List.mem_range'_1] at hi
      simp only [Block.mem_iff, decide_eq_true_eq]
      omega
    rw [hall, List.length_range']
  have habove : (List.range' (b.first + b.count) (s + n - (b.first + b.count))).countP (· ∈ b) =
      0 := by
    refine List.countP_eq_zero.2 fun i hi => ?_
    rw [List.mem_range'_1] at hi
    simp only [Block.mem_iff, decide_eq_true_eq]
    omega
  rw [hsplit, List.countP_append, List.countP_append, hbelow, hin, habove]
  omega

/-- The number of elements with one of two properties that exclude each other. -/
theorem countP_or_of_disjoint {α : Type} {l : List α} {q r : α → Bool}
    (h : ∀ x ∈ l, q x = true → r x = false) :
    l.countP (fun x => q x || r x) = l.countP q + l.countP r := by
  induction l with
  | nil => rfl
  | cons x l ih =>
    have hx := h x List.mem_cons_self
    simp only [List.countP_cons, ih fun y hy => h y (List.mem_cons_of_mem _ hy)]
    cases hq : q x <;> cases hr : r x <;> simp_all <;> omega

namespace FramePool

variable {p : FramePool} {ram : Ram} {live : List Block}

theorem countFrom_eq (p : FramePool) (ram : Ram) (q : FrameRecord → Bool) (i n acc : Nat) :
    p.countFrom ram q i n acc = acc + (List.range' i n).countP fun j => q (p.record ram j) := by
  induction n generalizing i acc with
  | zero => rfl
  | succ n ih =>
    rw [countFrom, ih, List.range'_succ, List.countP_cons]
    split <;> omega

/-- Blocks that lie in the managed frames and do not meet cover as many of them as they have. -/
theorem countP_framesOf (hwithin : ∀ b ∈ live, b.Within p) (hapart : live.Pairwise Block.Apart) :
    (List.range' p.reserved (p.total - p.reserved)).countP (· ∈ framesOf live) =
      frameCount live := by
  induction live with
  | nil => simp
  | cons b live ih =>
    obtain ⟨hb, hlive⟩ := List.pairwise_cons.1 hapart
    obtain ⟨hfirst, -, hpast⟩ := hwithin b List.mem_cons_self
    have hrest := ih (fun c hc => hwithin c (List.mem_cons_of_mem _ hc)) hlive
    have hfun : (fun i => decide (i ∈ framesOf (b :: live))) =
        fun i => decide (i ∈ b) || decide (i ∈ framesOf live) := by
      funext i
      simp
    rw [hfun, countP_or_of_disjoint, countP_range'_block hfirst, hrest, frameCount_cons]
    · unfold Block.past at hpast ⊢
      omega
    · intro i _ hi
      simp only [decide_eq_true_eq, decide_eq_false_iff_not] at hi ⊢
      rintro ⟨c, hc, hic⟩
      exact (hb c hc).not_mem hi hic

namespace Represents

/-- The frames handed out are those of the live blocks. -/
theorem allocatedFrames_eq (h : p.Represents ram live) :
    p.allocatedFrames ram = frameCount live := by
  rw [allocatedFrames, countFrom_eq, Nat.zero_add, ← countP_framesOf h.within h.apart]
  refine List.countP_congr fun i hi => ?_
  rw [List.mem_range'_1] at hi
  rw [h.allocated_iff i (by omega), decide_eq_true_eq]
  exact ⟨fun hor => hor.resolve_left (by omega), .inr⟩

/-- Every managed frame is reserved, handed out or free. -/
theorem count_partition (h : p.Represents ram live) (hreserved : p.reserved ≤ p.total) :
    p.reserved + p.allocatedFrames ram + p.freeFrames ram = p.total := by
  have hsplit : List.range' 0 p.total =
      List.range' 0 p.reserved ++ List.range' p.reserved (p.total - p.reserved) := by
    have := List.range'_append_1 (s := 0) (m := p.reserved) (n := p.total - p.reserved)
    rw [Nat.zero_add] at this
    rw [this, Nat.add_sub_cancel' hreserved]
  have hlow : (List.range' 0 p.reserved).countP (fun j => !(p.record ram j).isAllocated) = 0 := by
    refine List.countP_eq_zero.2 fun i hi => ?_
    rw [List.mem_range'_1] at hi
    have := (h.allocated_iff i (by omega)).2 (.inl (by omega))
    simp [this]
  have hlength := List.length_eq_countP_add_countP
    (fun j => (p.record ram j).isAllocated) (l := List.range' p.reserved (p.total - p.reserved))
  rw [List.length_range'] at hlength
  have hnot : (List.range' p.reserved (p.total - p.reserved)).countP
      (fun j => !(p.record ram j).isAllocated) =
      (List.range' p.reserved (p.total - p.reserved)).countP
        (fun j => decide ¬(p.record ram j).isAllocated = true) :=
    List.countP_congr fun i _ => by simp
  rw [allocatedFrames, freeFrames, countFrom_eq, countFrom_eq, hsplit, List.countP_append, hlow,
    hnot]
  omega

/-- The frames left are those that the live blocks leave of the managed ones. -/
theorem freeFrames_eq (h : p.Represents ram live) (hreserved : p.reserved ≤ p.total) :
    p.freeFrames ram = p.total - p.reserved - frameCount live := by
  have := h.count_partition hreserved
  have := h.allocatedFrames_eq
  omega

/-- What one list of blocks has more than another, the pool has less to hand out. -/
theorem freeFrames_add {ram' : Ram} {live' : List Block} (h : p.Represents ram live)
    (h' : p.Represents ram' live') (hreserved : p.reserved ≤ p.total) :
    p.freeFrames ram + frameCount live = p.freeFrames ram' + frameCount live' := by
  have hbefore := h.count_partition hreserved
  have hafter := h'.count_partition hreserved
  rw [h.allocatedFrames_eq] at hbefore
  rw [h'.allocatedFrames_eq] at hafter
  omega

end Represents

end FramePool

end SoftPaging
