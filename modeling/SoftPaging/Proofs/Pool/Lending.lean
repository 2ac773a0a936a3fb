import Mathlib
import SoftPaging.Frame.Allocate
import SoftPaging.Proofs.Kernel.Meets
import SoftPaging.Proofs.Kernel.Reach
import SoftPaging.Proofs.Pool.Address
import SoftPaging.Proofs.Pool.Run
import SoftPaging.Proofs.Pool.Search

/-!
# Lending frames

What the operations of the pool come to. `Kernel.Hosts k p` says that `p` is installed on `k` with
its records inside RAM, and `Kernel.Lends k p live` that besides they are those of the live blocks.

`run_allocate` and `run_free` are the two operations without their monad. From them, an allocation
lends one more block, at the first place with room (`Lends.allocate`), and an address given back is
decided by the block its frame is in (`Lends.run_free_of_first` and the three beside it): only the
first frame of a block brings the block back.
-/

namespace SoftPaging

/-- The layout leaves frames to hand out, and keeps its records below them. -/
structure FramePool.Sound (p : FramePool) : Prop where
  records_le : p.records.val + p.total ≤ p.reserved * pageSize
  reserved_lt : p.reserved < p.total
  total_le : p.total * pageSize ≤ maxRam

theorem FramePool.Sound.reserved_pos {p : FramePool} (h : p.Sound) : 0 < p.reserved := by
  have h1 := h.records_le
  have h2 := h.reserved_lt
  rcases Nat.eq_zero_or_pos p.reserved with h0 | hpos
  · rw [h0] at h1 h2
    omega
  · exact hpos

theorem FramePool.Sound.frame_lt {p : FramePool} (h : p.Sound) {i : Nat} (hi : i < p.total) :
    i < 1048576 := by
  have := h.total_le
  simp only [maxRam, pageSize] at this
  omega

theorem FramePool.Sound.twice_total_lt {p : FramePool} (h : p.Sound) :
    p.total + p.total < wordLimit := by
  have htotal := h.total_le
  simp only [maxRam, pageSize, wordLimit] at *
  omega

/-- A search answers where the end of its first window can be computed. -/
theorem FramePool.Sound.find_ok {p : FramePool} (h : p.Sound) {ram : Ram} {count : Nat}
    (hword : p.reserved + count < wordLimit) : ∃ o, p.find ram count = .ok o :=
  FramePool.find_ok h.twice_total_lt h.reserved_lt.le hword

namespace Kernel

/-- The pool `p` is installed, and its records lie inside RAM. -/
structure Hosts (k : Kernel) (p : FramePool) : Prop where
  installed : k.pool? = some p
  sound : p.Sound
  fits : p.FitsIn k.ram

/-- The blocks `live` are what the pool has handed out. -/
structure Lends (k : Kernel) (p : FramePool) (live : List Block) : Prop extends k.Hosts p where
  represents : p.Represents k.ram live

variable {k k' : Kernel} {p : FramePool} {live : List Block} {b : Block}

theorem Hosts.push (h : k.Hosts p) (e : Event) : (k.push e).Hosts p :=
  ⟨h.installed, h.sound, h.fits⟩

theorem Hosts.mapRam (h : k.Hosts p) {f : Ram → Ram} (hsize : (f k.ram).size = k.ram.size) :
    (k.mapRam f).Hosts p := by
  refine ⟨h.installed, h.sound, ?_⟩
  unfold FramePool.FitsIn
  rw [ram_mapRam, hsize]
  exact h.fits

theorem Lends.perm (h : k.Lends p live) {live' : List Block} (hperm : live.Perm live') :
    k.Lends p live' := ⟨h.toHosts, h.represents.perm hperm⟩

theorem Lends.push (h : k.Lends p live) (e : Event) : (k.push e).Lends p live :=
  ⟨h.toHosts.push e, h.represents⟩

/-- Writing to memory that holds no record lends what was lent before. -/
theorem Lends.mapRam (h : k.Lends p live) {f : Ram → Ram} (hsize : (f k.ram).size = k.ram.size)
    (hsame : ∀ j < p.reserved * pageSize, (f k.ram).byte j = k.ram.byte j) :
    (k.mapRam f).Lends p live where
  toHosts := h.toHosts.mapRam hsize
  represents := h.represents.congr fun i hi => by
    have := h.sound.records_le
    unfold FramePool.record
    rw [ram_mapRam, hsame _ (by omega)]

/-- The kernel after the run of frames `b` was taken. -/
def lend (k : Kernel) (p : FramePool) (b : Block) : Kernel :=
  (k.mapRam fun ram => p.takeRun ram b.first b.count).push (.allocated b.count (frameAt b.first))

/-- The kernel after the run of frames at the start of `b` was given back. -/
def takeBack (k : Kernel) (p : FramePool) (b : Block) : Kernel :=
  (k.mapRam fun ram => p.freeRun ram b.first).push (.freed b.count (frameAt b.first))

theorem Lends.lend (h : k.Lends p live) (hroom : p.HasRoom k.ram b) :
    (k.lend p b).Lends p (b :: live) where
  toHosts := (h.toHosts.mapRam (FramePool.size_takeRun _ _ _ _)).push _
  represents := h.represents.take h.fits hroom.1 hroom.2

theorem Lends.takeBack (h : k.Lends p (b :: live)) : (k.takeBack p b).Lends p live where
  toHosts := (h.toHosts.mapRam (FramePool.size_clearRun _ _ _ _)).push _
  represents := h.represents.give h.fits

end Kernel

/-! ## Handing out -/

section Allocate

open Outcome

variable {k : Kernel} {p : FramePool} {live : List Block} {count : Nat}

theorem run_allocate (hk : k.Hosts p) (hcount : 0 < count) :
    (Op.allocate count).run k =
      match p.find k.ram count with
      | .error cause => .halted cause
      | .ok none => .refused .outOfMemory (k.push (.noRun count))
      | .ok (some s) => .done (frameAt s) (k.lend p ⟨s, count⟩) := by
  have hpool := Op.run_pool hk.installed
  unfold Op.allocate
  simp only [Transition.run_bind, hpool, andThen_done, decide_eq_true hcount, require_true,
    Transition.liftM_ok, Transition.run_pure, Op.run_look]
  cases hfind : p.find k.ram count with
  | error cause => rfl
  | ok o =>
    cases o with
    | none => rfl
    | some s =>
      have hs : s + count ≤ p.total := (FramePool.find_firstFit hcount hfind).1.1.2.2
      have hstart := start_eq (hk.sound.frame_lt (show s < p.total by omega))
      simp [hstart, Kernel.lend]

theorem run_allocate_zero (hk : k.Hosts p) : (Op.allocate 0).run k = .halted .zeroFrames := by
  have hpool := Op.run_pool hk.installed
  unfold Op.allocate
  simp [hpool]

theorem run_allocateCleared_zero (hk : k.Hosts p) :
    (Op.allocateCleared 0).run k = .halted .zeroFrames := by
  unfold Op.allocateCleared
  rw [Transition.run_bind, run_allocate_zero hk, andThen_halted]

/-- An allocation lends the block at the first place with room, and is refused when there is none.
It halts only when the end of a block that large cannot be computed. -/
theorem Kernel.Lends.allocate (h : k.Lends p live) (hcount : 0 < count) :
    ((Op.allocate count).run k).Meets
      (fun a k' => ∃ s, a = frameAt s ∧ p.FirstFit k.ram count (some s) ∧
        k' = k.lend p ⟨s, count⟩ ∧ k'.Lends p (⟨s, count⟩ :: live))
      (fun cause k' => cause = .outOfMemory ∧ p.FirstFit k.ram count none ∧
        k' = k.push (.noRun count))
      (fun cause => cause = .addOverflow ∧ wordLimit ≤ p.reserved + count) := by
  rw [run_allocate h.toHosts hcount]
  cases hfind : p.find k.ram count with
  | error cause =>
    refine .halted ⟨FramePool.find_error hfind, ?_⟩
    by_contra hword
    obtain ⟨o, ho⟩ := h.sound.find_ok (Nat.not_le.1 hword)
    rw [ho] at hfind
    cases hfind
  | ok o =>
    have hfit := FramePool.find_firstFit hcount hfind
    cases o with
    | none => exact .refused ⟨rfl, hfit, rfl⟩
    | some s => exact .done ⟨s, rfl, hfit, rfl, h.lend hfit.1⟩

/-- Clearing what was allocated touches no record. It adds one way to halt: the direct map may not
reach the block. -/
theorem Kernel.Lends.allocateCleared (h : k.Lends p live) (hcount : 0 < count) :
    ((Op.allocateCleared count).run k).Meets
      (fun a k' => ∃ s, a = frameAt s ∧ p.FirstFit k.ram count (some s) ∧
        k' = (k.lend p ⟨s, count⟩).mapRam (·.fill (s * pageSize) (count * pageSize) 0) ∧
        k'.Lends p (⟨s, count⟩ :: live))
      (fun cause k' => cause = .outOfMemory ∧ p.FirstFit k.ram count none ∧
        k' = k.push (.noRun count))
      (fun cause => (cause = .addOverflow ∧ wordLimit ≤ p.reserved + count) ∨
        ¬ k.Covers (p.total * pageSize)) := by
  unfold Op.allocateCleared
  refine Transition.Meets.bind ((h.allocate hcount).mono (fun _ _ h => h) (fun _ _ h => h)
    fun _ => .inl) ?_
  rintro _ k' ⟨s, rfl, hfit, rfl, hlends⟩
  obtain ⟨hlow, -, hpast⟩ := hfit.1.1
  have hreserved : p.reserved * pageSize ≤ s * pageSize := Nat.mul_le_mul_right pageSize hlow
  have hs : s < p.total := hfit.1.1.first_lt
  have hval := val_frameAt (h.sound.frame_lt hs)
  rcases Op.run_reachFrame_cases (frameAt s) (k.lend p ⟨s, count⟩) with hreach | ⟨c, hreach⟩
  · simp only [Transition.run_bind, hreach, andThen_done, Op.run_onRam, Transition.run_pure, hval]
    refine .done ⟨s, rfl, hfit, rfl, hlends.mapRam (Ram.size_fill _ _ _ _) fun j hj => ?_⟩
    rw [Ram.byte_fill, if_neg (by omega)]
  · simp only [Transition.run_bind, hreach, andThen_halted]
    refine .halted (.inr fun hcovers => ?_)
    have hcovers' : (k.lend p ⟨s, count⟩).Covers (p.total * pageSize) := hcovers.congr rfl
    rw [Op.run_reachFrame_of_covers hcovers' (by rw [hval]; simp only [pageSize]; omega)] at hreach
    cases hreach

end Allocate

/-! ## Taking back -/

section Free

open Outcome

variable {k : Kernel} {p : FramePool} {live : List Block} {a : PhysicalAddress} {b : Block}

theorem run_free (hk : k.Hosts p) (a : PhysicalAddress) :
    (Op.free a).run k =
      if a.isPageAligned = false then .refused .badAddress k
      else if a.number.val < p.reserved ∨ p.total ≤ a.number.val then .refused .badAddress k
      else if p.isFree k.ram a.number.val = true then .refused .doubleFree k
      else if (p.record k.ram (a.number.val - 1)).continues = true then .refused .badAddress k
      else .done (p.runLength k.ram a.number.val)
        ((k.mapRam fun ram => p.freeRun ram a.number.val).push
          (.freed (p.runLength k.ram a.number.val) a)) := by
  have hpool := Op.run_pool hk.installed
  unfold Op.free
  simp only [Transition.run_bind, hpool, andThen_done, Address.isAligned_pageSize,
    Transition.liftM_ok, Transition.run_pure, Bool.or_eq_true, decide_eq_true_eq]
  cases a.isPageAligned with
  | false => rfl
  | true =>
    by_cases hrange : a.number.val < p.reserved ∨ p.total ≤ a.number.val
    · simp [hrange]
    · cases hfree : p.isFree k.ram a.number.val with
      | true => simp [hrange, hfree]
      | false =>
        cases hcont : (p.record k.ram (a.number.val - 1)).continues with
        | true => simp [hrange, hcont, hfree]
        | false => simp [hrange, hcont, hfree]

namespace Kernel.Lends

/-- The first frame of a block brings the whole block back. -/
theorem run_free_of_first (h : k.Lends p live) (hb : b ∈ live) :
    (Op.free (frameAt b.first)).run k = .done b.count (k.takeBack p b) := by
  have hwithin := h.represents.within b hb
  have hfirst : p.reserved ≤ b.first := hwithin.1
  have hfirst_lt := hwithin.first_lt
  have hlt := h.sound.frame_lt hfirst_lt
  have hpos := h.sound.reserved_pos
  have hbusy : p.isFree k.ram b.first ≠ true := fun hfree =>
    ((h.represents.isFree_iff hfirst_lt).1 hfree).2 ⟨b, hb, hwithin.first_mem⟩
  -- a block that linked the frame before to this one would be this block, and start earlier
  have hlink : (p.record k.ram (b.first - 1)).continues ≠ true := by
    rw [ne_eq, h.represents.continues_iff _ (by omega)]
    rintro ⟨c, hc, hclow, hchigh⟩
    have hcb : b.first ∈ c := by
      rw [Block.mem_iff]
      unfold Block.past at hchigh
      omega
    obtain rfl := h.represents.eq_of_mem hb hc hwithin.first_mem hcb
    omega
  rw [run_free h.toHosts, number_frameAt hlt, isPageAligned_frameAt hlt, if_neg (by decide),
    if_neg (by omega), if_neg hbusy, if_neg hlink, h.represents.runLength_eq hb]
  rfl

/-- A frame inside a block but not its first is refused. -/
theorem run_free_of_inside (h : k.Lends p live) (hb : b ∈ live) (ha : a.number.val ∈ b)
    (hne : a.number.val ≠ b.first) : (Op.free a).run k = .refused .badAddress k := by
  obtain ⟨hfirst, hcount, hpast⟩ := h.represents.within b hb
  rw [Block.mem_iff] at ha
  unfold Block.past at hpast
  have hbusy : p.isFree k.ram a.number.val ≠ true := fun hfree =>
    ((h.represents.isFree_iff (by omega)).1 hfree).2 ⟨b, hb, Block.mem_iff.2 ha⟩
  have hlink : (p.record k.ram (a.number.val - 1)).continues = true := by
    rw [h.represents.continues_iff _ (by omega)]
    refine ⟨b, hb, by omega, ?_⟩
    unfold Block.past
    omega
  rw [run_free h.toHosts, if_neg hbusy, if_pos hlink]
  split
  · rfl
  · rw [if_neg (by omega)]

/-- A managed frame that is in no block is refused as given back twice. -/
theorem run_free_of_free (h : k.Lends p live) (haligned : a.isPageAligned = true)
    (hlow : p.reserved ≤ a.number.val) (hhigh : a.number.val < p.total)
    (hfree : a.number.val ∉ framesOf live) : (Op.free a).run k = .refused .doubleFree k := by
  rw [run_free h.toHosts, haligned, if_neg (by decide), if_neg (by omega),
    if_pos ((h.represents.isFree_iff hhigh).2 ⟨hlow, hfree⟩)]

/-- An address that is not the start of a managed frame is refused. -/
theorem run_free_of_foreign (h : k.Lends p live)
    (ha : a.isPageAligned = false ∨ a.number.val < p.reserved ∨ p.total ≤ a.number.val) :
    (Op.free a).run k = .refused .badAddress k := by
  rw [run_free h.toHosts]
  split
  · rfl
  · next haligned => rw [if_pos (ha.resolve_left haligned)]

/-- Whoever owns the block at the start of the list can give it back. -/
theorem run_freeOwned (h : k.Lends p (b :: live)) :
    (Op.freeOwned (frameAt b.first)).run k = .done () (k.takeBack p b) := by
  have hfree := h.run_free_of_first List.mem_cons_self
  unfold Op.freeOwned
  rw [Transition.run_bind, Transition.run_attempt, hfree]
  rfl

end Kernel.Lends

end Free

end SoftPaging
