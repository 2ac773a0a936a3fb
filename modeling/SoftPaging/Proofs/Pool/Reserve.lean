import Mathlib
import SoftPaging.Proofs.Pool.Ledger

/-!
# What a pool keeps for itself

The records of a pool describe the very memory they lie in. Setting it up writes them right behind
what the kernel has claimed, and reserves every frame up to the one with the last record. So the one
thing that can go wrong, besides arguments that are not whole pages, is that no frame is left
(`FramePool.Unfit`); nothing but the records is written (`Kernel.Founds`); and a block that is handed
out later lies above all of it and ends within managed RAM (`FramePool.KeepsClear`).

The number of reserved frames is rounded up from bytes to frames, and that the last record lies in one
of them is where the rounding matters (`setUpPool_founds`).
-/

namespace SoftPaging

open Outcome

namespace FramePool

variable {p : FramePool} {ramSize : Nat} {firstFree : PhysicalAddress}

/-- So many frames hold so many bytes. -/
theorem framesFor_eq (bytes : Nat) : framesFor bytes = bytes ⌈/⌉ pageSize :=
  (Nat.ceilDiv_eq_add_pred_div bytes pageSize).symm

/-- A pool over so many bytes of RAM cannot have its records at that address: one of the two is not a
number of whole pages, or the frames up to the last record are all that there are. -/
def Unfit (ramSize : Nat) (firstFree : PhysicalAddress) : Prop :=
  ramSize % pageSize ≠ 0 ∨ firstFree.val % pageSize ≠ 0 ∨
    min ramSize maxRam / pageSize ≤ (firstFree.val + min ramSize maxRam / pageSize) ⌈/⌉ pageSize

instance (ramSize : Nat) (firstFree : PhysicalAddress) : Decidable (Unfit ramSize firstFree) :=
  inferInstanceAs (Decidable (_ ∨ _ ∨ _))

theorem total_le_reserved_iff : (layout ramSize firstFree).total ≤ (layout ramSize firstFree).reserved ↔
    min ramSize maxRam / pageSize ≤
      (firstFree.val + min ramSize maxRam / pageSize) ⌈/⌉ pageSize := by
  rw [← framesFor_eq]
  rfl

/-- The arguments are unfit just when one of the checks fails. -/
theorem unfit_iff : Unfit ramSize firstFree ↔ ramSize % pageSize ≠ 0 ∨
    firstFree.isPageAligned = false ∨
      (layout ramSize firstFree).total ≤ (layout ramSize firstFree).reserved := by
  rw [total_le_reserved_iff, ← Bool.not_eq_true, Address.isPageAligned_iff]
  rfl

theorem layout_sound_of_fit (h : ¬ Unfit ramSize firstFree) : (layout ramSize firstFree).Sound :=
  layout_sound (Nat.not_le.1 fun hroom => h (unfit_iff.2 (.inr (.inr hroom))))

theorem layout_managed (ramSize : Nat) (firstFree : PhysicalAddress) :
    (layout ramSize firstFree).total * pageSize ≤ min ramSize maxRam := Nat.div_mul_le_self _ _

/-- The block of `count` frames at `a` does not meet the bytes of the kernel, which lie below
`firstFree`, or the records behind them, and it ends where managed RAM does at the latest. -/
structure KeepsClear (p : FramePool) (ramSize : Nat) (firstFree : PhysicalAddress) (count : Nat)
    (a : PhysicalAddress) : Prop where
  count_pos : 1 ≤ count
  reserved_le : pageSize * p.reserved ≤ a.val
  end_le : a.val + count * pageSize ≤ pageSize * p.total
  apart : ∀ j, a.val ≤ j → j < a.val + count * pageSize → firstFree.val + p.total ≤ j
  frame_ne_zero : a.number.val ≠ 0
  end_le_ram : a.val + count * pageSize ≤ min ramSize maxRam
  end_le_limit : a.val + count * pageSize ≤ addressLimit

/-- The records end below the end of the frames they are about. -/
theorem Sound.records_lt (h : p.Sound) : p.records.val + p.total < p.total * pageSize :=
  h.records_le.trans_lt (Nat.mul_lt_mul_of_pos_right h.reserved_lt (by decide))

/-- A block within the frames that a pool hands out is clear of those it does not. -/
theorem Sound.keepsClear {b : Block} (h : p.Sound) (hrecords : p.records = firstFree)
    (hmanaged : p.total * pageSize ≤ min ramSize maxRam) (hb : b.Within p) :
    p.KeepsClear ramSize firstFree b.count (frameAt b.first) := by
  obtain ⟨hlow, hpos, hpast⟩ := hb
  have hbelow := h.records_le
  have hreserved := h.reserved_pos
  have hpast : b.first + b.count ≤ p.total := hpast
  have hlt : b.first < 1048576 := h.frame_lt (by omega)
  have hstart : (frameAt b.first).val = b.first * pageSize := val_frameAt hlt
  have hend : (frameAt b.first).val + b.count * pageSize ≤ p.total * pageSize := by
    rw [hstart, ← Nat.add_mul]
    exact Nat.mul_le_mul_right pageSize hpast
  have hstart_ge : p.reserved * pageSize ≤ (frameAt b.first).val := by
    rw [hstart]
    exact Nat.mul_le_mul_right pageSize hlow
  rw [hrecords] at hbelow
  refine ⟨hpos, ?_, ?_, fun j hj _ => hbelow.trans (hstart_ge.trans hj), ?_, hend.trans hmanaged, ?_⟩
  · rw [Nat.mul_comm]
    exact hstart_ge
  · rw [Nat.mul_comm pageSize]
    exact hend
  · rw [number_frameAt hlt]
    omega
  · have hlimit : maxRam ≤ addressLimit := by decide
    exact (hend.trans h.total_le).trans hlimit

end FramePool

/-! ## Setting up -/

variable {k : Kernel} {p : FramePool} {ramSize : Nat} {firstFree : PhysicalAddress}

/-- A pool over `ramSize` bytes of RAM was set up with its records at `firstFree`: `k'` is the kernel
after that, and only the bytes of the records are other than in `k`. -/
structure Kernel.Founds (k : Kernel) (ramSize : Nat) (firstFree : PhysicalAddress) (p : FramePool)
    (k' : Kernel) : Prop where
  records_eq : p.records = firstFree
  total_eq : p.total = min ramSize maxRam / pageSize
  reserved_eq : p.reserved = (firstFree.val + p.total) ⌈/⌉ pageSize
  reserved_pos : 1 ≤ p.reserved
  reserved_lt : p.reserved < p.total
  /-- The byte of a reserved frame says that it is allocated, and that of any other frame nothing. -/
  byte_eq : ∀ j, k'.ram.byte j =
    if firstFree.val ≤ j ∧ j < firstFree.val + p.total then
      if j - firstFree.val < p.reserved then 1 else 0
    else k.ram.byte j
  size_eq : k'.ram.size = k.ram.size
  /-- The records lie in reserved frames themselves. -/
  frame_lt : ∀ j, firstFree.val ≤ j → j < firstFree.val + p.total → j / pageSize < p.reserved
  isAllocated_eq : ∀ i < p.total, (p.record k'.ram i).isAllocated = decide (i < p.reserved)
  continues_eq : ∀ i < p.total, (p.record k'.ram i).continues = false

/-- The byte that setting up writes for a frame. -/
theorem FramePool.bits_freshRecord (p : FramePool) (i : Nat) :
    (p.freshRecord i).bits = if i < p.reserved then 1 else 0 := by
  unfold freshRecord
  split <;> rfl

theorem Kernel.founds_setUp (hp : p = .layout ramSize firstFree) (hsound : p.Sound)
    (hfits : p.FitsIn k.ram) : k.Founds ramSize firstFree p (k.setUp p ramSize) := by
  have hram : (k.setUp p ramSize).ram = p.writeRecords k.ram 0 p.total := by simp [setUp]
  have hrecords : p.records = firstFree := by rw [hp]; rfl
  have hfits' : p.records.val + (0 + p.total) ≤ k.ram.size := by rwa [Nat.zero_add]
  have hfresh : ∀ i < p.total, p.record (k.setUp p ramSize).ram i = p.freshRecord i := by
    intro i hi
    rw [hram, FramePool.record_writeRecords p _ hfits', if_pos (by omega)]
  have hbelow := hsound.records_le
  refine ⟨hrecords, by rw [hp]; rfl, ?_, hsound.reserved_pos, hsound.reserved_lt, ?_, ?_, ?_, ?_, ?_⟩
  · rw [← FramePool.framesFor_eq, hp]
    rfl
  · intro j
    rw [hram, FramePool.byte_writeRecords p _ hfits', FramePool.bits_freshRecord, hrecords,
      Nat.add_zero, Nat.zero_add]
  · rw [hram, FramePool.size_writeRecords]
  · intro j _ hj
    rw [hrecords] at hbelow
    exact (Nat.div_lt_iff_lt_mul (by decide)).2 (hj.trans_le hbelow)
  · intro i hi
    rw [hfresh i hi]
    unfold FramePool.freshRecord
    by_cases hlow : i < p.reserved
    · rw [if_pos hlow, decide_eq_true hlow]
      rfl
    · rw [if_neg hlow, decide_eq_false hlow]
      rfl
  · intro i hi
    rw [hfresh i hi]
    unfold FramePool.freshRecord
    split <;> rfl

theorem exists_halted_setUpPool (k : Kernel) (h : FramePool.Unfit ramSize firstFree) :
    ∃ cause, (Op.setUpPool ramSize firstFree).run k = .halted cause := by
  rw [run_setUpPool]
  split_ifs with hsize haligned hroom
  · exact ⟨_, rfl⟩
  · exact ⟨_, rfl⟩
  · exact ⟨_, rfl⟩
  · rcases FramePool.unfit_iff.1 h with hunfit | hunfit | hunfit <;> contradiction

/-- The records are reached through the window, and written. -/
theorem run_setUpPool_of_fit {base : UInt64} (hmap : k.directMap? = some (.window base k.ram.size))
    (h : ¬ FramePool.Unfit ramSize firstFree)
    (hfits : (FramePool.layout ramSize firstFree).FitsIn k.ram) :
    (Op.setUpPool ramSize firstFree).run k = .done (.layout ramSize firstFree)
      (k.setUp (.layout ramSize firstFree) ramSize) := by
  have hreach : (Op.reachFrame firstFree).run (k.announce ramSize) =
      .done () (k.announce ramSize) := by
    refine Op.run_reachFrame_of_covers
      ⟨_, (k.directMap?_announce ramSize).trans hmap, DirectMap.covers_window base le_rfl⟩ ?_
    have hpos := Nat.zero_lt_of_lt (FramePool.layout_sound_of_fit h).reserved_lt
    exact (Nat.lt_add_of_pos_right hpos).trans_le hfits
  rw [FramePool.unfit_iff, not_or, not_or] at h
  obtain ⟨hsize, haligned, hroom⟩ := h
  rw [run_setUpPool, if_neg hsize, if_neg haligned, if_neg hroom, hreach, andThen_done]

/-! ## After that -/

namespace Ledger

variable {l l' : Ledger}

/-- What a client is left with after a sequence of requests is sound. -/
theorem Sound.of_run (h : l.Sound p) {requests : List PoolRequest}
    (hrun : l.run requests = some l') : l'.Sound p := by
  induction requests generalizing l with
  | nil =>
    obtain rfl := Option.some.inj hrun
    exact h
  | cons r requests ih =>
    unfold Ledger.run at hrun
    rw [List.foldlM_cons, Option.bind_eq_bind, Option.bind_eq_some_iff] at hrun
    obtain ⟨l₁, hstep, hrest⟩ := hrun
    exact ih (h.of_step hstep) hrest

/-- A client of a pool that was just set up and installed. -/
theorem sound_start_setUp (ramSize : Nat) (hsound : p.Sound) (hfits : p.FitsIn k.ram) :
    (Ledger.start ((k.setUp p ramSize).withPool p)).Sound p :=
  ⟨k.lends_setUp ramSize hsound hfits, fun _ hg => absurd hg List.not_mem_nil⟩

/-- Whatever was handed out lies clear of what the pool does not hand out. -/
theorem Sound.keepsClear (h : l.Sound p) (hrecords : p.records = firstFree)
    (hmanaged : p.total * pageSize ≤ min ramSize maxRam) {g : Grant} (hg : g ∈ l.live) :
    p.KeepsClear ramSize firstFree g.count g.start := by
  have hblock := h.lends.sound.keepsClear hrecords hmanaged
    (h.lends.represents.within _ (block_mem hg))
  rwa [Grant.frameAt_block (h.aligned g hg)] at hblock

/-- A block that is returned is among those that were handed out. -/
theorem Sound.keepsClear_of_done (h : l.Sound p) (hrecords : p.records = firstFree)
    (hmanaged : p.total * pageSize ≤ min ramSize maxRam) {count : Nat} {a : PhysicalAddress}
    {k' : Kernel} (hdone : (Op.allocate count).run l.kernel = .done a k' ∨
      (Op.allocateCleared count).run l.kernel = .done a k') :
    p.KeepsClear ramSize firstFree count a := by
  have hstep : ∃ r, l.step r = some ⟨k', ⟨a, count⟩ :: l.live⟩ := by
    rcases hdone with hdone | hdone
    · exact ⟨.allocate count, by rw [Ledger.step, hdone]; rfl⟩
    · exact ⟨.allocateCleared count, by rw [Ledger.step, hdone]; rfl⟩
  obtain ⟨r, hr⟩ := hstep
  exact (h.of_step hr).keepsClear hrecords hmanaged (g := ⟨a, count⟩) List.mem_cons_self

end Ledger

/-- Over RAM that lies behind a window, with any first free address: setting up a pool halts just when
the arguments are unfit for it. Otherwise it writes the records, and whatever the pool is asked
afterwards, it hands out no block that meets the kernel or the records. -/
theorem setUpPool_founds {base : UInt64} (hmap : k.directMap? = some (.window base k.ram.size))
    (hram : min ramSize maxRam ≤ k.ram.size) (firstFree : PhysicalAddress) :
    ((∃ cause, (Op.setUpPool ramSize firstFree).run k = .halted cause) ↔
      FramePool.Unfit ramSize firstFree) ∧
    (¬ FramePool.Unfit ramSize firstFree → ∃ p k',
      (Op.setUpPool ramSize firstFree).run k = .done p k' ∧ k.Founds ramSize firstFree p k' ∧
        (k.pool? = none → (Op.setPool p).run k' = .done () (k'.withPool p)) ∧
          ∀ requests l, (Ledger.start (k'.withPool p)).run requests = some l →
            ∀ count a k'', (Op.allocate count).run l.kernel = .done a k'' ∨
              (Op.allocateCleared count).run l.kernel = .done a k'' →
                p.KeepsClear ramSize firstFree count a) := by
  by_cases hunfit : FramePool.Unfit ramSize firstFree
  · exact ⟨iff_of_true (exists_halted_setUpPool k hunfit) hunfit, fun hfit => absurd hunfit hfit⟩
  · have hsound := FramePool.layout_sound_of_fit hunfit
    have hmanaged := FramePool.layout_managed ramSize firstFree
    have hfits : (FramePool.layout ramSize firstFree).FitsIn k.ram :=
      hsound.records_lt.le.trans (hmanaged.trans hram)
    have hset := run_setUpPool_of_fit hmap hunfit hfits
    refine ⟨iff_of_false ?_ hunfit, fun _ => ⟨_, _, hset, ?_, ?_, ?_⟩⟩
    · rintro ⟨cause, hhalted⟩
      cases hset.symm.trans hhalted
    · exact Kernel.founds_setUp rfl hsound hfits
    · intro hpool
      simp [Op.setPool, Kernel.setUp, hpool, Kernel.withPool]
    · intro requests l hrun count a k'' hdone
      have hstart := Ledger.sound_start_setUp ramSize hsound hfits
      exact (hstart.of_run hrun).keepsClear_of_done rfl hmanaged hdone

/-- Three pages of RAM and a kernel without a byte: the pool is set up, and its records lie in the first
frame, which is the only one it keeps. -/
theorem three_pages_founded :
    ∃ (k k' : Kernel) (p : FramePool), k.directMap? = some (.window 0 k.ram.size) ∧
      min 12288 maxRam ≤ k.ram.size ∧ (Op.setUpPool 12288 0).run k = .done p k' ∧
        k.Founds 12288 0 p k' ∧ p.reserved = 1 := by
  have hsize : (Ram.zeroed 12288).size = 12288 := Ram.size_zeroed 12288
  have hmap : (⟨Ram.zeroed 12288, some (.window 0 12288), none, #[]⟩ : Kernel).directMap? =
      some (.window 0 (Ram.zeroed 12288).size) := by rw [hsize]
  have hram : min 12288 maxRam ≤ (Ram.zeroed 12288).size := by
    rw [hsize]
    decide
  have hfit : ¬ FramePool.Unfit 12288 0 := by decide
  obtain ⟨p, k', hset, hfounds, -⟩ := (setUpPool_founds hmap hram 0).2 hfit
  refine ⟨_, k', p, hmap, hram, hset, hfounds, ?_⟩
  rw [hfounds.reserved_eq, hfounds.total_eq]
  decide

end SoftPaging
