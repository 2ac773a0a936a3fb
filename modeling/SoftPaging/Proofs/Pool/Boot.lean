import Mathlib
import SoftPaging.Proofs.Kernel.Reach
import SoftPaging.Proofs.Pool.Lending

/-!
# Setting up the pool

A pool that was set up lends nothing (`bootPool_lends`): the reserved frames are marked allocated, all
others are free, and no record continues. The layout keeps the records below the first frame that is
handed out (`FramePool.layout_sound`).
-/

namespace SoftPaging

namespace FramePool

theorem framesFor_mul_ge (n : Nat) : n ≤ framesFor n * pageSize := by
  unfold framesFor
  simp only [pageSize]
  omega

theorem layout_sound {ramSize : Nat} {firstFree : PhysicalAddress}
    (h : (layout ramSize firstFree).reserved < (layout ramSize firstFree).total) :
    (layout ramSize firstFree).Sound where
  records_le := framesFor_mul_ge _
  reserved_lt := h
  total_le := Nat.le_trans (Nat.div_mul_le_self _ _) (Nat.min_le_right _ _)

variable {p : FramePool} {ram : Ram} {i n : Nat}

@[simp] theorem size_writeRecords (p : FramePool) (ram : Ram) (i n : Nat) :
    (p.writeRecords ram i n).size = ram.size := by
  induction n generalizing ram i with
  | zero => rfl
  | succ n ih => rw [writeRecords, ih, size_setRecord]

/-- The record that setting up writes for frame `i`. -/
def freshRecord (p : FramePool) (i : Nat) : FrameRecord :=
  if i < p.reserved then FrameRecord.clear.set .allocated else .clear

/-- Setting up writes the bytes of the records and no others. -/
theorem byte_writeRecords (p : FramePool) (ram : Ram) (h : p.records.val + (i + n) ≤ ram.size)
    (j : Nat) :
    (p.writeRecords ram i n).byte j =
      if p.records.val + i ≤ j ∧ j < p.records.val + (i + n) then
        (p.freshRecord (j - p.records.val)).bits
      else ram.byte j := by
  induction n generalizing ram i with
  | zero => rw [if_neg (by omega)]; rfl
  | succ n ih =>
    change (p.writeRecords (p.setRecord ram i (p.freshRecord i)) (i + 1) n).byte j = _
    have hfirst : (p.setRecord ram i (p.freshRecord i)).byte j =
        if p.records.val + i = j ∧ j < ram.size then (p.freshRecord i).bits else ram.byte j :=
      Ram.byte_store _ _ _ _
    rw [ih _ (by rw [size_setRecord]; omega), hfirst]
    rcases eq_or_ne (p.records.val + i) j with rfl | hne
    · rw [if_neg (by omega), if_pos (by omega), if_pos (by omega), Nat.add_sub_cancel_left]
    · rw [if_neg (c := _ ∧ j < ram.size) (fun hor => hne hor.1)]
      exact if_congr (by omega) rfl rfl

theorem record_writeRecords (p : FramePool) (ram : Ram) (h : p.records.val + (i + n) ≤ ram.size)
    (j : Nat) :
    p.record (p.writeRecords ram i n) j =
      if i ≤ j ∧ j < i + n then p.freshRecord j else p.record ram j := by
  unfold record
  rw [byte_writeRecords p ram h, Nat.add_sub_cancel_left]
  by_cases hj : i ≤ j ∧ j < i + n
  · rw [if_pos hj, if_pos (by omega)]
  · rw [if_neg hj, if_neg (by omega)]

/-- Fresh records are those of no live block. -/
theorem represents_writeRecords (hfit : p.FitsIn ram) :
    p.Represents (p.writeRecords ram 0 p.total) [] := by
  unfold FitsIn at hfit
  have hrecord : ∀ i < p.total, p.record (p.writeRecords ram 0 p.total) i = p.freshRecord i := by
    intro i hi
    rw [record_writeRecords p ram (by omega), if_pos (by omega)]
  constructor
  · intro b hb
    cases hb
  · exact List.Pairwise.nil
  · intro i hi
    rw [hrecord i hi, freshRecord]
    split
    · next hlow => exact ⟨fun _ => .inl hlow, fun _ => rfl⟩
    · next hhigh =>
      exact ⟨fun hc => absurd hc (by decide), fun hor => absurd hor (by simpa using hhigh)⟩
  · intro i hi
    rw [hrecord i hi, freshRecord]
    refine ⟨fun hc => ?_, fun ⟨b, hb, _⟩ => by cases hb⟩
    split at hc <;> exact absurd hc (by decide)
  · intro i hi
    rw [hrecord i hi, freshRecord]
    split <;> decide

end FramePool

/-! ## What setting up comes to -/

open Outcome

variable {k k' : Kernel} {p : FramePool} {ramSize : Nat} {firstFree : PhysicalAddress}

namespace Kernel

/-- The kernel after it was told how much RAM is left alone. -/
def announce (k : Kernel) (ramSize : Nat) : Kernel :=
  if maxRam < ramSize then k.push (.ramIgnored (ramSize - maxRam)) else k

/-- The kernel after the records of the pool `p` were written. -/
def setUp (k : Kernel) (p : FramePool) (ramSize : Nat) : Kernel :=
  ((k.announce ramSize).mapRam fun ram => p.writeRecords ram 0 p.total).push
    (.poolReady p.total (min ramSize maxRam) p.records p.reserved)

@[simp] theorem ram_announce (k : Kernel) (ramSize : Nat) : (k.announce ramSize).ram = k.ram := by
  unfold announce
  split <;> rfl

@[simp] theorem directMap?_announce (k : Kernel) (ramSize : Nat) :
    (k.announce ramSize).directMap? = k.directMap? := by
  unfold announce
  split <;> rfl

@[simp] theorem pool?_announce (k : Kernel) (ramSize : Nat) :
    (k.announce ramSize).pool? = k.pool? := by
  unfold announce
  split <;> rfl

end Kernel

/-- Setting up halts at the first of its conditions that fails, and writes the records when none
does. -/
theorem run_setUpPool (k : Kernel) (ramSize : Nat) (firstFree : PhysicalAddress) :
    (Op.setUpPool ramSize firstFree).run k =
      if ramSize % pageSize ≠ 0 then .halted .ramSizeUnaligned
      else if firstFree.isPageAligned = false then .halted .firstFreeUnaligned
      else if (FramePool.layout ramSize firstFree).total ≤
        (FramePool.layout ramSize firstFree).reserved then .halted .recordsFillRam
      else ((Op.reachFrame firstFree).run (k.announce ramSize)).andThen fun _ _ =>
        .done (FramePool.layout ramSize firstFree)
          (k.setUp (FramePool.layout ramSize firstFree) ramSize) := by
  unfold Op.setUpPool
  generalize hp : FramePool.layout ramSize firstFree = p
  have hrecords : p.records = firstFree := by rw [← hp]; rfl
  by_cases hsize : ramSize % pageSize = 0
  · rw [if_neg (not_not.2 hsize)]
    cases haligned : firstFree.isPageAligned with
    | false => simp [hsize, Address.isAligned_pageSize, haligned]
    | true =>
      rw [if_neg (show ¬ true = false by decide)]
      simp only [Transition.run_bind, Address.isAligned_pageSize, haligned, hsize, BEq.rfl,
        require_true, Transition.liftM_ok, Transition.run_pure, andThen_done]
      -- the rest is the same with and without the message about RAM left alone
      have hrest (k : Kernel) :
          (do
            liftM (require (p.reserved < p.total) .recordsFillRam)
            Op.reachFrame firstFree
            Op.onRam fun ram => p.writeRecords ram 0 p.total
            Op.record (.poolReady p.total (min ramSize maxRam) firstFree p.reserved)
            pure p : Op FramePool).run k =
          if p.total ≤ p.reserved then .halted .recordsFillRam
          else ((Op.reachFrame firstFree).run k).andThen fun _ _ =>
            .done p ((k.mapRam fun ram => p.writeRecords ram 0 p.total).push
              (.poolReady p.total (min ramSize maxRam) p.records p.reserved)) := by
        by_cases hroom : p.total ≤ p.reserved
        · have hnot : ¬ p.reserved < p.total := Nat.not_lt.2 hroom
          simp [hroom, hnot]
        · have hlt := Nat.not_le.1 hroom
          rcases Op.run_reachFrame_cases firstFree k with hreach | ⟨c, hreach⟩ <;>
            simp [hroom, hlt, hreach, hrecords]
      unfold Kernel.setUp Kernel.announce
      by_cases hram : maxRam < ramSize
      · simp only [if_pos hram, Transition.run_bind, Op.run_record, andThen_done]
        exact hrest _
      · simp only [if_neg hram]
        exact hrest k
  · rw [if_pos hsize]
    have hfalse : (ramSize % pageSize == 0) = false := beq_false_of_ne hsize
    simp only [Transition.run_bind, hfalse, require_false, Transition.liftM_error,
      Transition.run_halt, andThen_halted]

/-- The kernel after the pool `p` was installed. -/
def Kernel.withPool (k : Kernel) (p : FramePool) : Kernel :=
  ⟨k.ram, k.directMap?, some p, k.log⟩

/-- Setting up and installing a pool, on a kernel that has none and reaches the records. -/
theorem run_bootPool (hpool : k.pool? = none) (hsize : ramSize % pageSize = 0)
    (haligned : firstFree.isPageAligned = true)
    (hroom : (FramePool.layout ramSize firstFree).reserved <
      (FramePool.layout ramSize firstFree).total)
    (hreach : (Op.reachFrame firstFree).run (k.announce ramSize) = .done () (k.announce ramSize)) :
    (Op.bootPool ramSize firstFree).run k =
      .done (FramePool.layout ramSize firstFree)
        ((k.setUp (FramePool.layout ramSize firstFree) ramSize).withPool
          (FramePool.layout ramSize firstFree)) := by
  have hset := run_setUpPool k ramSize firstFree
  rw [if_neg (not_not.2 hsize), haligned, if_neg (by decide), if_neg (Nat.not_le.2 hroom), hreach,
    andThen_done] at hset
  have hpool' : (k.setUp (FramePool.layout ramSize firstFree) ramSize).pool? = none := by
    simp [Kernel.setUp, hpool]
  simp [Op.bootPool, hpool, hset, Op.setPool, hpool', Kernel.withPool]

/-- A pool that was set up leaves frames to hand out, and was installed with fresh records. -/
theorem bootPool_done (h : (Op.bootPool ramSize firstFree).run k = .done p k') :
    k.pool? = none ∧ p = FramePool.layout ramSize firstFree ∧ p.Sound ∧
      k' = (k.setUp p ramSize).withPool p := by
  unfold Op.bootPool at h
  cases hpool : k.pool? with
  | some q => simp [hpool] at h
  | none =>
    have hset := run_setUpPool k ramSize firstFree
    simp only [Transition.run_bind, Transition.run_observe, hpool, andThen_done] at h
    by_cases hsize : ramSize % pageSize = 0
    · cases haligned : firstFree.isPageAligned with
      | false => simp [hset, hsize, haligned] at h
      | true =>
        by_cases hroom : (FramePool.layout ramSize firstFree).total ≤
            (FramePool.layout ramSize firstFree).reserved
        · simp [hset, hsize, haligned, hroom] at h
        · have hpool' : (k.setUp (FramePool.layout ramSize firstFree) ramSize).pool? = none := by
            simp [Kernel.setUp, hpool]
          rw [if_neg (not_not.2 hsize), haligned, if_neg (by decide), if_neg hroom] at hset
          rcases Op.run_reachFrame_cases firstFree (k.announce ramSize) with hreach | ⟨c, hreach⟩
          · simp [hset, hreach, Op.setPool, hpool'] at h
            obtain ⟨rfl, rfl⟩ := h
            exact ⟨rfl, rfl, FramePool.layout_sound (Nat.not_le.1 hroom), rfl⟩
          · simp [hset, hreach] at h
    · simp [hset, hsize] at h

/-- A pool whose records were just written lends nothing. -/
theorem Kernel.lends_setUp (k : Kernel) (ramSize : Nat) (hsound : p.Sound)
    (hfits : p.FitsIn k.ram) : ((k.setUp p ramSize).withPool p).Lends p [] := by
  have hram : ((k.setUp p ramSize).withPool p).ram = p.writeRecords k.ram 0 p.total := by
    simp [Kernel.withPool, Kernel.setUp]
  refine ⟨⟨rfl, hsound, ?_⟩, ?_⟩
  · rw [hram]
    unfold FramePool.FitsIn
    rw [FramePool.size_writeRecords]
    exact hfits
  · rw [hram]
    exact FramePool.represents_writeRecords hfits

/-- A pool lends nothing when it was just set up. -/
theorem bootPool_lends (h : (Op.bootPool ramSize firstFree).run k = .done p k')
    (hfits : p.FitsIn k.ram) : k'.Lends p [] := by
  obtain ⟨-, -, hsound, rfl⟩ := bootPool_done h
  exact k.lends_setUp ramSize hsound hfits

/-! ## Emulated RAM -/

/-- Installing RAM, on a kernel without a direct map. -/
theorem run_installRam {base : UInt64} {size : Nat} (hmap : k.directMap? = none)
    (hpos : 0 < size) (hpages : size % pageSize = 0) (hle : size ≤ DirectMap.largestWindow) :
    (Op.installRam base size).run k =
      .done () ⟨Ram.zeroed size, some (.window base size), k.pool?, k.log⟩ := by
  have hemulated : DirectMap.emulated base size = .ok (.window base size) := by
    unfold DirectMap.emulated
    simp [hpos, hpages, hle]
    rfl
  simp [Op.installRam, hemulated, Op.setDirectMap, hmap]
  rfl

/-- RAM that was installed is zero, and all of it lies behind the direct map. -/
theorem installRam_done {base : UInt64} {size : Nat}
    (h : (Op.installRam base size).run k = .done () k') :
    k' = ⟨Ram.zeroed size, some (.window base size), k.pool?, k.log⟩ := by
  cases hmap : k.directMap? with
  | some m =>
    cases hemulated : DirectMap.emulated base size <;>
      simp [Op.installRam, hemulated, Op.setDirectMap, hmap] at h
  | none =>
    cases hemulated : DirectMap.emulated base size with
    | error cause => simp [Op.installRam, hemulated] at h
    | ok m =>
      have hm : m = .window base size := by
        unfold DirectMap.emulated at hemulated
        cases hpages : (decide (0 < size) && size % pageSize == 0) <;>
          cases hle : decide (size ≤ DirectMap.largestWindow) <;>
          simp only [hpages, hle, require_true, require_false] at hemulated <;> cases hemulated
        rfl
      simp [Op.installRam, hemulated, Op.setDirectMap, hmap, hm] at h
      exact h.symm

end SoftPaging
