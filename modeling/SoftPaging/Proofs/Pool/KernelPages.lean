import Mathlib
import SoftPaging.Proofs.Kernel.DirectMap
import SoftPaging.Proofs.Pool.Ledger

/-!
# Pages of the kernel

The kernel asks the pool for pages and is given their kernel address, and it gives them back by that
address. Because a direct map leads back from where it leads to, the address brings back just the block
that was taken for it, and RAM is what it was (`Kernel.Lends.run_freeKernelPages`): the records are a
matter of the live blocks, and nothing but records was written.

`DirectMap.exact_bijection` is this together with what carries it, that a direct map is a bijection as
far as it reaches (`DirectMap.Exact`).
-/

namespace SoftPaging

open Outcome

variable {k k' : Kernel} {p : FramePool} {live : List Block} {b : Block} {count : Nat}

namespace Kernel.Lends

/-- A block that is taken and given back leaves RAM as it was. -/
theorem ram_takeBack_lend (h : k.Lends p live) (hroom : p.HasRoom k.ram b) :
    ((k.lend p b).takeBack p b).ram = k.ram := by
  have hlent := h.lend hroom
  have hpast : b.first + b.count ≤ p.total := hroom.1.2.2
  have hlength : p.runLength (p.takeRun k.ram b.first b.count) b.first = b.count :=
    hlent.represents.runLength_eq List.mem_cons_self
  refine Ram.ext_byte ?_ fun j => ?_
  · exact (FramePool.size_clearRun _ _ _ _).trans (FramePool.size_takeRun _ _ _ _)
  by_cases hj : p.records.val ≤ j ∧ j < p.records.val + p.total
  · obtain ⟨i, rfl⟩ := Nat.exists_eq_add_of_le hj.1
    exact congrArg FrameRecord.bits
      (h.represents.record_eq hlent.takeBack.represents (Nat.lt_of_add_lt_add_left hj.2))
  · change (p.clearRun (p.takeRun k.ram b.first b.count) b.first _).byte j = _
    rw [hlength, FramePool.byte_clearRun_of_not_record _ _ (by omega),
      FramePool.byte_takeRun_of_not_record _ _ (by omega)]

/-- The kernel is given the block at the first place with room, under the kernel address of its
start. -/
theorem of_run_allocateKernelPages {v : KernelAddress} (h : k.Lends p live)
    (hrun : (Op.allocateKernelPages count).run k = .done (some v) k') :
    ∃ s m, p.HasRoom k.ram ⟨s, count⟩ ∧ k' = k.lend p ⟨s, count⟩ ∧ k.directMap? = some m ∧
      m.reach (frameAt s) = .ok v := by
  unfold Op.allocateKernelPages at hrun
  rw [Transition.run_bind, Transition.run_attempt] at hrun
  cases halloc : (Op.allocate count).run k with
  | halted cause =>
    rw [halloc] at hrun
    cases hrun
  | refused cause k₁ =>
    rw [halloc] at hrun
    cases hrun
  | done a k₁ =>
    have hcount : 0 < count := by
      rcases Nat.eq_zero_or_pos count with rfl | hcount
      · rw [run_allocate_zero h.toHosts] at halloc
        cases halloc
      · exact hcount
    obtain ⟨s, rfl, hfit, rfl, -⟩ := (h.allocate hcount).of_done halloc
    rw [halloc, andThen_done, Transition.run_bind, andThen_eq_done_iff] at hrun
    obtain ⟨w, k₁, hmapped, hsome⟩ := hrun
    cases hsome
    obtain ⟨rfl, m, hm, hreach⟩ := Op.run_directMapped_eq_done_iff.1 hmapped
    exact ⟨s, m, hfit.1, rfl, hm, hreach⟩

/-- The address that the kernel was given brings its block back. -/
theorem run_freeKernelPages {v : KernelAddress} (h : k.Lends p live)
    (hrun : (Op.allocateKernelPages count).run k = .done (some v) k') :
    ∃ k'', (Op.freeKernelPages v).run k' = .done () k'' ∧ k''.ram = k.ram ∧ k''.pool? = k.pool? := by
  obtain ⟨s, m, hroom, rfl, hm, hreach⟩ := h.of_run_allocateKernelPages hrun
  have hlent := h.lend hroom
  have hm' : (k.lend p ⟨s, count⟩).directMap? = some m := hm
  refine ⟨(k.lend p ⟨s, count⟩).takeBack p ⟨s, count⟩, ?_, h.ram_takeBack_lend hroom, rfl⟩
  unfold Op.freeKernelPages
  simp only [Transition.run_bind, Transition.run_discard, Op.run_pool hlent.installed, andThen_done,
    Op.fromDirectMapped, Op.run_directMap hm', DirectMap.reached_reach hreach, Transition.liftM_ok,
    Transition.run_pure]
  exact hlent.run_freeOwned

/-- Where the pool has room for them and the direct map reaches it, the kernel is given its pages. -/
theorem exists_run_allocateKernelPages (h : k.Lends p live) (hroom : p.HasRoom k.ram b)
    (hcovers : k.Covers (p.total * pageSize)) :
    ∃ v k', (Op.allocateKernelPages b.count).run k = .done (some v) k' := by
  obtain ⟨hfirst, hcount, hpast⟩ := hroom.1
  have hanswer := h.allocate hcount
  unfold Op.allocateKernelPages
  rw [Transition.run_bind, Transition.run_attempt]
  cases halloc : (Op.allocate b.count).run k with
  | halted cause =>
    obtain ⟨-, hword⟩ := hanswer.of_halted halloc
    have htotal := h.sound.twice_total_lt
    unfold Block.past at hpast
    omega
  | refused cause k₁ =>
    obtain ⟨-, hnone, -⟩ := hanswer.of_refused halloc
    exact absurd hroom (hnone b.first)
  | done a k₁ =>
    obtain ⟨s, rfl, hfit, rfl, -⟩ := hanswer.of_done halloc
    have hs : s < p.total := hfit.1.1.first_lt
    have hlt : (frameAt s).val < p.total * pageSize := by
      rw [val_frameAt (h.sound.frame_lt hs)]
      exact Nat.mul_lt_mul_of_pos_right hs (by decide)
    have hcovers' : (k.lend p ⟨s, b.count⟩).Covers (p.total * pageSize) := hcovers.congr rfl
    obtain ⟨v, hv⟩ := Op.run_directMapped_of_covers hcovers' hlt
    simp only [andThen_done, Transition.run_bind, hv, Transition.run_pure]
    exact ⟨v, _, rfl⟩

end Kernel.Lends

/-! ## Exactness -/

namespace DirectMap

/-- A direct map is a bijection as far as it reaches, and a window reaches as far as it is large. -/
structure Exact (m : DirectMap) : Prop where
  /-- A kernel address that is none of the map's may still lead somewhere. -/
  reach_iff_reached : ∀ a v, m.reach a = .ok v ↔ m.Names v ∧ m.reached v = .ok a
  reach_iff : ∀ base size, m = .window base size → ∀ a, (∃ v, m.reach a = .ok v) ↔ a.val < size
  /-- A kernel address below the base is rejected, although the difference to it wraps. -/
  reached_iff : ∀ base size, m = .window base size → base.toNat + size ≤ wordLimit →
    size ≤ addressLimit → ∀ v, (∃ a, m.reached v = .ok a) ↔
      base.toNat ≤ v.toNat ∧ v.toNat < base.toNat + size

/-- Direct maps are exact. So what the kernel is given by a pool, whatever was asked of the pool before, it
can give back, and that leaves every byte of RAM as it was. -/
theorem exact_bijection :
    (∀ m : DirectMap, m.Exact) ∧
      ∀ p l, Ledger.Reachable p l →
        ∀ count v k, (Op.allocateKernelPages count).run l.kernel = .done (some v) k →
          ∃ k', (Op.freeKernelPages v).run k = .done () k' ∧ k'.ram = l.kernel.ram ∧
            k'.pool? = l.kernel.pool? := by
  refine ⟨fun m => ⟨fun a v => reach_eq_ok_iff_reached, ?_, ?_⟩, ?_⟩
  · rintro base size rfl a
    exact exists_reach_window_iff
  · rintro base size rfl hend hsize v
    exact exists_reached_window_iff hend hsize
  · intro p l hl count v k hrun
    exact hl.sound.lends.run_freeKernelPages hrun

/-- On three pages of RAM that were just set up, the kernel is given two and gives them back. -/
theorem three_pages_come_back : ∃ k v k' k'',
    (Op.bootPool 12288 0).run ⟨Ram.zeroed 12288, some (.window 0 12288), none, #[]⟩ =
        .done (.layout 12288 0) k ∧
      (Op.allocateKernelPages 2).run k = .done (some v) k' ∧
      (Op.freeKernelPages v).run k' = .done () k'' ∧ k''.ram = k.ram := by
  have hsize : 12288 % pageSize = 0 := rfl
  obtain ⟨k, hboot, hreachable, hcovers⟩ := Ledger.exists_reachable hsize (by decide)
  have hlends : k.Lends (.layout 12288 0) [] := hreachable.sound.lends
  have hroom : (FramePool.layout 12288 0).HasRoom k.ram ⟨1, 2⟩ :=
    hlends.represents.hasRoom_of_nil (by decide)
  obtain ⟨v, k', hgiven⟩ := hlends.exists_run_allocateKernelPages hroom hcovers
  obtain ⟨k'', hback, hram, -⟩ := exact_bijection.2 _ _ hreachable 2 v k' hgiven
  exact ⟨k, v, k', k'', hboot, hgiven, hback, hram⟩

end DirectMap

end SoftPaging
