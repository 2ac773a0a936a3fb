import Mathlib
import SoftPaging.Proofs.Pool.Block

/-!
# Taking and giving back runs of frames

What `FramePool.takeRun` and `FramePool.freeRun` do to the records, and from it what they do to the
live blocks: a run of free frames that is taken becomes one more block (`Represents.take`), and the
run that is given back at the start of a block is exactly that block (`Represents.give`). Neither
touches a byte that is not a record of a frame of the run.
-/

namespace SoftPaging

namespace FramePool

variable {p : FramePool} {ram : Ram} {i j n : Nat} {b : Block} {live : List Block}

/-- The records lie inside RAM. -/
def FitsIn (p : FramePool) (ram : Ram) : Prop := p.records.val + p.total ≤ ram.size

/-! ## Records of a run -/

@[simp] theorem size_takeRun (p : FramePool) (ram : Ram) (i n : Nat) :
    (p.takeRun ram i n).size = ram.size := by
  induction n generalizing ram i with
  | zero => rfl
  | succ n ih => rw [takeRun, ih, size_setRecord]

@[simp] theorem size_clearRun (p : FramePool) (ram : Ram) (i n : Nat) :
    (p.clearRun ram i n).size = ram.size := by
  induction n generalizing ram i with
  | zero => rfl
  | succ n ih => rw [clearRun, ih, size_setRecord]

/-- Writing a record leaves every other byte alone. -/
theorem byte_setRecord_of_ne (p : FramePool) (ram : Ram) (r : FrameRecord)
    (h : j ≠ p.records.val + i) : (p.setRecord ram i r).byte j = ram.byte j := by
  rw [setRecord, Ram.byte_store, if_neg (fun hj => h hj.1.symm)]

theorem byte_takeRun_of_not_record (p : FramePool) (ram : Ram)
    (h : j < p.records.val + i ∨ p.records.val + (i + n) ≤ j) :
    (p.takeRun ram i n).byte j = ram.byte j := by
  induction n generalizing ram i with
  | zero => rfl
  | succ n ih => rw [takeRun, ih _ (by omega), byte_setRecord_of_ne _ _ _ (by omega)]

theorem byte_clearRun_of_not_record (p : FramePool) (ram : Ram)
    (h : j < p.records.val + i ∨ p.records.val + (i + n) ≤ j) :
    (p.clearRun ram i n).byte j = ram.byte j := by
  induction n generalizing ram i with
  | zero => rfl
  | succ n ih => rw [clearRun, ih _ (by omega), byte_setRecord_of_ne _ _ _ (by omega)]

/-- What taking a run that ends before `past` makes of the record of frame `i`. -/
def takenRecord (r : FrameRecord) (i past : Nat) : FrameRecord :=
  if i + 1 = past then (r.set .allocated).unset .continues else (r.set .allocated).set .continues

/-- What giving back its run makes of a record. -/
def freedRecord (r : FrameRecord) : FrameRecord :=
  (r.unset .allocated).unset .continues

theorem record_takeRun (p : FramePool) (ram : Ram) (h : p.records.val + (i + n) ≤ ram.size)
    (j : Nat) :
    p.record (p.takeRun ram i n) j =
      if i ≤ j ∧ j < i + n then takenRecord (p.record ram j) j (i + n) else p.record ram j := by
  induction n generalizing ram i with
  | zero => rw [if_neg (by omega)]; rfl
  | succ n ih =>
    have hlinked : (if n = 0 then ((p.record ram i).set .allocated).unset .continues
        else ((p.record ram i).set .allocated).set .continues) =
          takenRecord (p.record ram i) i (i + (n + 1)) := if_congr (by omega) rfl rfl
    rw [takeRun]
    rw [hlinked, ih _ (by rw [size_setRecord]; omega)]
    rcases Nat.lt_trichotomy i j with hij | rfl | hij
    · rw [record_setRecord_of_ne p _ (by omega), show i + 1 + n = i + (n + 1) by omega]
      exact if_congr (by omega) rfl rfl
    · rw [if_neg (by omega), if_pos (by omega), record_setRecord_self p _ (by omega)]
    · rw [if_neg (by omega), if_neg (by omega), record_setRecord_of_ne p _ (by omega)]

theorem record_clearRun (p : FramePool) (ram : Ram) (h : p.records.val + (i + n) ≤ ram.size)
    (j : Nat) :
    p.record (p.clearRun ram i n) j =
      if i ≤ j ∧ j < i + n then freedRecord (p.record ram j) else p.record ram j := by
  induction n generalizing ram i with
  | zero => rw [if_neg (by omega)]; rfl
  | succ n ih =>
    rw [clearRun, ih _ (by rw [size_setRecord]; omega)]
    rcases Nat.lt_trichotomy i j with hij | rfl | hij
    · rw [record_setRecord_of_ne p _ (by omega)]
      exact if_congr (by omega) rfl rfl
    · rw [if_neg (by omega), if_pos (by omega), record_setRecord_self p _ (by omega), freedRecord]
    · rw [if_neg (by omega), if_neg (by omega), record_setRecord_of_ne p _ (by omega)]

theorem isAllocated_takenRecord (r : FrameRecord) (i past : Nat) :
    (takenRecord r i past).isAllocated = true := by
  unfold takenRecord FrameRecord.isAllocated
  split <;> simp only [FrameRecord.test_set, FrameRecord.test_unset] <;> rfl

theorem continues_takenRecord (r : FrameRecord) (i past : Nat) :
    (takenRecord r i past).continues = true ↔ i + 1 ≠ past := by
  unfold takenRecord FrameRecord.continues
  split <;> simp [FrameRecord.test_set, FrameRecord.test_unset, *]

theorem isAllocated_freedRecord (r : FrameRecord) : (freedRecord r).isAllocated = false := by
  unfold freedRecord FrameRecord.isAllocated
  simp [FrameRecord.test_unset]

theorem continues_freedRecord (r : FrameRecord) : (freedRecord r).continues = false := by
  unfold freedRecord FrameRecord.continues
  simp [FrameRecord.test_unset]

theorem bits_takenRecord_lt {r : FrameRecord} (h : r.bits < 4) (i past : Nat) :
    (takenRecord r i past).bits < 4 := by
  unfold takenRecord
  split
  · exact FrameRecord.bits_unset_lt (FrameRecord.bits_set_lt h _) _
  · exact FrameRecord.bits_set_lt (FrameRecord.bits_set_lt h _) _

theorem bits_freedRecord_lt {r : FrameRecord} (h : r.bits < 4) : (freedRecord r).bits < 4 :=
  FrameRecord.bits_unset_lt (FrameRecord.bits_unset_lt h _) _

/-! ## Runs as blocks -/

namespace Represents

/-- A run of free frames that is taken is one more live block. -/
theorem take (h : p.Represents ram live) (hfit : p.FitsIn ram) (hb : b.Within p)
    (hfree : ∀ i, i ∈ b → p.isFree ram i = true) :
    p.Represents (p.takeRun ram b.first b.count) (b :: live) := by
  have hcount := hb.2.1
  have hpast : b.first + b.count ≤ p.total := hb.2.2
  unfold FitsIn at hfit
  have hrecord := record_takeRun p ram (i := b.first) (n := b.count) (by omega)
  have hnew : ∀ i, i ∈ b → i ∉ framesOf live := fun i hi =>
    ((h.isFree_iff (by rw [Block.mem_iff] at hi; omega)).1 (hfree i hi)).2
  constructor
  · intro c hc
    rcases List.mem_cons.1 hc with rfl | hc
    · exact hb
    · exact h.within c hc
  · refine List.pairwise_cons.2 ⟨fun c hc => ?_, h.apart⟩
    exact Block.apart_of_not_mem hcount (h.within c hc).2.1 fun i hi hic => hnew i hi ⟨c, hc, hic⟩
  · intro i hi
    rw [hrecord, mem_framesOf_cons, Block.mem_iff]
    split
    · next hib => exact ⟨fun _ => .inr (.inl hib), fun _ => isAllocated_takenRecord _ _ _⟩
    · next hib => rw [h.allocated_iff i hi]; tauto
  · intro i hi
    rw [hrecord]
    split
    · next hib =>
      rw [continues_takenRecord]
      constructor
      · intro hlast
        refine ⟨b, List.mem_cons_self, ?_⟩
        unfold Block.Links Block.past
        omega
      · rintro ⟨c, hc, hlink⟩ hlast
        rcases List.mem_cons.1 hc with rfl | hc
        · unfold Block.Links Block.past at hlink
          omega
        · exact hnew i (Block.mem_iff.2 hib) ⟨c, hc, hlink.mem⟩
    · next hib => rw [h.continues_iff i hi, Block.links_cons_of_not_mem hib]
  · intro i hi
    rw [hrecord]
    split
    · exact bits_takenRecord_lt (h.bits_lt i hi) _ _
    · exact h.bits_lt i hi

/-- Following the records from inside a block leads to its end. -/
theorem runEndFrom_eq (h : p.Represents ram live) (hb : b ∈ live) :
    ∀ n i, i ∈ b → b.past ≤ i + n → p.runEndFrom ram i n = b.past
  | 0, i, hi, hn => by
    rw [Block.mem_iff] at hi
    unfold Block.past at hn
    omega
  | n + 1, i, hi, hn => by
    have hpast := (h.within b hb).2.2
    have hi' := Block.mem_iff.1 hi
    unfold Block.past at hpast hn ⊢
    have hlink : (p.record ram i).continues = true ↔ i + 1 < b.first + b.count := by
      rw [h.continues_iff i (by omega)]
      constructor
      · rintro ⟨c, hc, hlink⟩
        obtain rfl := h.eq_of_mem hb hc hi hlink.mem
        exact hlink.2
      · intro hlt
        exact ⟨b, hb, hi'.1, hlt⟩
    rw [runEndFrom]
    by_cases hlast : i + 1 < b.first + b.count
    · rw [if_pos (hlink.2 hlast)]
      exact h.runEndFrom_eq hb n (i + 1) (Block.mem_iff.2 (by omega)) (by unfold Block.past; omega)
    · rw [if_neg (fun hc => hlast (hlink.1 hc))]
      omega

/-- A run that starts where a block starts is that block. -/
theorem runLength_eq (h : p.Represents ram live) (hb : b ∈ live) :
    p.runLength ram b.first = b.count := by
  obtain ⟨hfirst, hcount, hpast⟩ := h.within b hb
  rw [runLength, h.runEndFrom_eq hb _ _ (Block.mem_iff.2 (by omega))
    (by unfold Block.past at hpast ⊢; omega)]
  unfold Block.past
  omega

/-- Giving back the run at the start of a block takes just that block from the live ones. -/
theorem give (h : p.Represents ram (b :: live)) (hfit : p.FitsIn ram) :
    p.Represents (p.freeRun ram b.first) live := by
  have hpast := (h.within b List.mem_cons_self).2.2
  unfold Block.past at hpast
  unfold FitsIn at hfit
  obtain ⟨hapart, hrest⟩ := List.pairwise_cons.1 h.apart
  have hrecord := record_clearRun p ram (i := b.first) (n := b.count) (by omega)
  rw [freeRun, h.runLength_eq List.mem_cons_self]
  have hgone : ∀ i, i ∈ b → i ∉ framesOf live := by
    rintro i hi ⟨c, hc, hic⟩
    exact (hapart c hc).not_mem hi hic
  refine ⟨fun c hc => h.within c (List.mem_cons_of_mem _ hc), hrest, ?_, ?_, ?_⟩
  · intro i hi
    rw [hrecord]
    split
    · next hib =>
      have hres := (h.within b List.mem_cons_self).1
      rw [isAllocated_freedRecord]
      refine ⟨fun hc => absurd hc (by decide), ?_⟩
      rintro (hlt | hmem)
      · omega
      · exact absurd hmem (hgone i (Block.mem_iff.2 hib))
    · next hib =>
      rw [h.allocated_iff i hi, mem_framesOf_cons, Block.mem_iff]
      tauto
  · intro i hi
    rw [hrecord]
    split
    · next hib =>
      rw [continues_freedRecord]
      refine ⟨fun hc => absurd hc (by decide), ?_⟩
      rintro ⟨c, hc, hlink⟩
      exact absurd ⟨c, hc, hlink.mem⟩ (hgone i (Block.mem_iff.2 hib))
    · next hib => rw [h.continues_iff i hi, Block.links_cons_of_not_mem hib]
  · intro i hi
    rw [hrecord]
    split
    · exact bits_freedRecord_lt (h.bits_lt i hi)
    · exact h.bits_lt i hi

end Represents

end FramePool

end SoftPaging
