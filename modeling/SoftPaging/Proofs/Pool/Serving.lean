import Mathlib
import SoftPaging.Proofs.Kernel.DirectMap
import SoftPaging.Proofs.Pool.Holding

/-!
# Serving a client

What the pool does for a client that asks for frames next to others that are handed out. A block that
it hands out is new, and the frames of the others stay as they are (`Kernel.HandsOut`). An address
that is given back brings back the block that starts there, or nothing happens
(`Lends.free_meets`).

The kernel's own pages go by kernel addresses. The direct map goes there and back
(`DirectMap.reached_reach`), so that they are the same frames by another name.
-/

namespace SoftPaging

open Outcome

/-- The halt of an owner that gives back a frame it does not own. -/
def Halt.FreeRefused : Halt → Prop
  | freeRefused _ _ => True
  | _ => False

variable {k k' : Kernel} {p : FramePool} {live : List Block} {count : Nat} {a : PhysicalAddress}

namespace Kernel

/-- A block at an address was handed out besides the live ones, which stay as they are. -/
structure HandsOut (k : Kernel) (p : FramePool) (live : List Block) (count : Nat)
    (a : PhysicalAddress) (k' : Kernel) : Prop where
  holds : k'.Holds p (⟨a.number.val, count⟩ :: live)
  same : k.ram.SameBlocks k'.ram live
  touches : Touches p (p.spare live) k k'

/-- The block that starts at an address was taken back, and nothing else happened. -/
structure TakesBack (k : Kernel) (p : FramePool) (live : List Block) (a : PhysicalAddress)
    (k' : Kernel) : Prop where
  aligned : a.isPageAligned = true
  took : ∃ b ∈ live, b.first = a.number.val ∧ ∀ rest, live.Perm (b :: rest) → k'.Holds p rest
  same : k.ram.SameBlocks k'.ram live
  touches : Touches p ∅ k k'

/-- An address is the start of a live block, or the live blocks decide for what it is refused. -/
theorem free_cases (p : FramePool) (live : List Block) (a : PhysicalAddress) :
    (∃ b ∈ live, a = frameAt b.first) ∨
      ∃ cause, ∀ k, Lends k p live → (Op.free a).run k = .refused cause k := by
  by_cases hforeign : a.isPageAligned = false ∨ a.number.val < p.reserved ∨ p.total ≤ a.number.val
  · exact .inr ⟨_, fun _ hk => hk.run_free_of_foreign hforeign⟩
  push Not at hforeign
  obtain ⟨haligned, hlow, hhigh⟩ := hforeign
  have haligned : a.isPageAligned = true := by simpa using haligned
  by_cases hmem : a.number.val ∈ framesOf live
  · obtain ⟨b, hb, hab⟩ := hmem
    by_cases hfirst : a.number.val = b.first
    · exact .inl ⟨b, hb, by rw [← hfirst, frameAt_number haligned]⟩
    · exact .inr ⟨_, fun _ hk => hk.run_free_of_inside hb hab hfirst⟩
  · exact .inr ⟨_, fun _ hk => hk.run_free_of_free haligned hlow hhigh hmem⟩

namespace Holds

/-- The block at the first place with room, once lent. -/
theorem handsOut_lend {s : Nat} (h : k.Holds p live) (hroom : p.HasRoom k.ram ⟨s, count⟩) :
    k.HandsOut p live count (frameAt s) (k.lend p ⟨s, count⟩) := by
  have hlt : s < p.total := hroom.1.first_lt
  have htouches := Touches.lend p ∅ k (b := ⟨s, count⟩) hroom.1.2.2
  have hnothing : k.Holds p ([] ++ live) := h
  constructor
  · rw [number_frameAt (h.sound.frame_lt hlt)]
    exact h.of_touches (h.toLends.lend hroom) htouches
  · exact hnothing.sameBlocks htouches (Set.empty_subset _)
  · exact htouches.mono (Set.empty_subset _)

theorem allocate_meets (h : k.Holds p live) (count : Nat) :
    ((Op.allocate count).run k).Meets (fun a k' => k.HandsOut p live count a k')
      (fun _ k' => ∃ e, k' = k.push e) (fun cause => ¬ cause.FreeRefused) := by
  rcases Nat.eq_zero_or_pos count with rfl | hcount
  · rw [run_allocate_zero h.toHosts]
    exact .halted id
  · refine (h.toLends.allocate hcount).mono ?_ ?_ ?_
    · rintro _ _ ⟨s, rfl, hfit, rfl, -⟩
      exact h.handsOut_lend hfit.1
    · rintro cause _ ⟨-, -, rfl⟩
      exact ⟨_, rfl⟩
    · rintro cause ⟨rfl, -⟩
      exact id

/-- Filling the block with zeros keeps to the block. -/
theorem handsOut_lendCleared {s : Nat} (h : k.Holds p live) (hroom : p.HasRoom k.ram ⟨s, count⟩)
    (hlends : ((k.lend p ⟨s, count⟩).mapRam (·.fill (s * pageSize) (count * pageSize) 0)).Lends p
      (⟨s, count⟩ :: live)) :
    k.HandsOut p live count (frameAt s)
      ((k.lend p ⟨s, count⟩).mapRam (·.fill (s * pageSize) (count * pageSize) 0)) := by
  have hlt : s < p.total := hroom.1.first_lt
  have hfill : Touches p {i | i ∈ (⟨s, count⟩ : Block)} (k.lend p ⟨s, count⟩)
      ((k.lend p ⟨s, count⟩).mapRam (·.fill (s * pageSize) (count * pageSize) 0)) := by
    refine ⟨rfl, Ram.size_fill _ _ _ _, fun j hj _ => ?_⟩
    rw [ram_mapRam, Ram.byte_fill, if_neg]
    rintro ⟨hlow, hhigh, -⟩
    refine hj (Block.mem_mk.2 ?_)
    simp only [pageSize] at *
    omega
  have htouches := (Touches.lend p _ k (b := ⟨s, count⟩) hroom.1.2.2).trans hfill
  have hspare : {i | i ∈ (⟨s, count⟩ : Block)} ⊆ p.spare live := by
    intro i hi
    have hi' := Block.mem_mk.1 hi
    have hpast : s + count ≤ p.total := hroom.1.2.2
    have hfree := (h.represents.isFree_iff (by omega)).1 (hroom.2 i hi)
    exact ⟨hfree.1, by omega, hfree.2⟩
  constructor
  · rw [number_frameAt (h.sound.frame_lt hlt)]
    exact h.of_touches hlends htouches
  · exact h.sameBlocks_of_spare (htouches.mono hspare)
  · exact htouches.mono hspare

theorem allocateCleared_meets (h : k.Holds p live) (count : Nat) :
    ((Op.allocateCleared count).run k).Meets (fun a k' => k.HandsOut p live count a k')
      (fun _ k' => ∃ e, k' = k.push e) (fun cause => ¬ cause.FreeRefused) := by
  rcases Nat.eq_zero_or_pos count with rfl | hcount
  · rw [run_allocateCleared_zero h.toHosts]
    exact .halted id
  · refine (h.toLends.allocateCleared hcount).mono ?_ ?_ ?_
    · rintro _ _ ⟨s, rfl, hfit, rfl, hlends⟩
      exact h.handsOut_lendCleared hfit.1 hlends
    · rintro cause _ ⟨-, -, rfl⟩
      exact ⟨_, rfl⟩
    · rintro cause (⟨rfl, -⟩ | huncovered)
      · exact id
      · exact absurd h.covers huncovered

/-! ## Taking back -/

/-- An address that is given back brings back the block that starts there, or nothing happens. -/
theorem free_meets (h : k.Holds p live) (a : PhysicalAddress) :
    ((Op.free a).run k).Meets (fun _ k' => k.TakesBack p live a k') (fun _ k' => k' = k) never := by
  rcases free_cases p live a with ⟨b, hb, rfl⟩ | ⟨cause, hrefused⟩
  · have htouches {rest : List Block} (hperm : live.Perm (b :: rest)) :=
      Touches.takeBack (h.perm hperm).toLends ∅
    have hnothing : k.Holds p ([] ++ live) := h
    have hsplit := List.perm_cons_erase hb
    have hlt := (h.represents.within b hb).first_lt
    rw [h.run_free_of_first hb]
    exact .done ⟨isPageAligned_frameAt (h.sound.frame_lt hlt), ⟨b, hb,
      (number_frameAt (h.sound.frame_lt hlt)).symm,
      fun rest hperm => (h.perm hperm).takeBack⟩,
      hnothing.sameBlocks (htouches hsplit) (Set.empty_subset _), htouches hsplit⟩
  · rw [hrefused k h.toLends]
    exact .refused rfl

theorem freeOwned_meets (h : k.Holds p live) (a : PhysicalAddress) :
    ((Op.freeOwned a).run k).Meets (fun _ k' => k.TakesBack p live a k') (fun _ _ => False)
      (fun _ => True) := by
  unfold Op.freeOwned
  rw [Transition.run_bind, Transition.run_attempt]
  cases hrun : (Op.free a).run k with
  | done n k' => exact .done ((h.free_meets a).of_done hrun)
  | refused cause k' => exact .halted trivial
  | halted cause => exact .halted trivial

end Holds

end Kernel

/-! ## Pages for the kernel -/

namespace Kernel.Holds

/-- Pages are handed out under a kernel address that leads back to them. -/
theorem allocateKernelPages_meets (h : k.Holds p live) (count : Nat) :
    ((Op.allocateKernelPages count).run k).Meets
      (fun v? k' => match v? with
        | some v => ∃ a, (Op.fromDirectMapped v).run k' = .done a k' ∧ k.HandsOut p live count a k'
        | none => k'.Holds p live ∧ k'.ram = k.ram ∧ Touches p ∅ k k')
      (fun _ _ => False) (fun cause => ¬ cause.FreeRefused) := by
  unfold Op.allocateKernelPages
  rw [Transition.run_bind, Transition.run_attempt]
  cases hrun : (Op.allocate count).run k with
  | halted cause => exact .halted ((h.allocate_meets count).of_halted hrun)
  | refused cause k₁ =>
    obtain ⟨e, rfl⟩ := (h.allocate_meets count).of_refused hrun
    exact .done ⟨(h.push e).push _, rfl,
      (Touches.push p ∅ k e).trans (Touches.push p ∅ _ _)⟩
  | done a k₁ =>
    have hout := (h.allocate_meets count).of_done hrun
    have hmem : a.number.val ∈ framesOf (⟨a.number.val, count⟩ :: live) :=
      mem_framesOf_cons.2 (.inl (hout.holds.represents.within _ List.mem_cons_self).first_mem)
    obtain ⟨m, hm, hcovers⟩ := hout.holds.covers
    obtain ⟨v, hv⟩ := hcovers a (by
      have hlt := (hout.holds.frame_bounds hmem).2
      rw [Address.number_val] at hlt
      simp only [pageSize] at hlt ⊢
      omega)
    simp only [andThen_done, Op.directMapped, Transition.run_bind, Op.run_directMap hm, hv,
      Transition.liftM_ok, Transition.run_pure]
    refine .done ⟨a, ?_, hout⟩
    simp only [Op.fromDirectMapped, Transition.run_bind, Op.run_directMap hm, andThen_done,
      DirectMap.reached_reach hv, Transition.liftM_ok, Transition.run_pure]

/-- Pages that are given back are those behind their kernel address. -/
theorem freeKernelPages_meets (h : k.Holds p live) (v : KernelAddress) :
    ((Op.freeKernelPages v).run k).Meets
      (fun _ k' => ∃ m a, k.directMap? = some m ∧ m.reached v = .ok a ∧ k.TakesBack p live a k' ∧
        (Op.fromDirectMapped v).run k' = .done a k')
      (fun _ _ => False) (fun _ => True) := by
  obtain ⟨m, hm, -⟩ := h.covers
  unfold Op.freeKernelPages
  simp only [Transition.run_bind, Transition.run_discard, Op.run_pool h.installed, andThen_done,
    Op.fromDirectMapped, Op.run_directMap hm]
  cases hreached : m.reached v with
  | error cause => exact .halted trivial
  | ok a =>
    simp only [Transition.liftM_ok, Transition.run_pure, andThen_done]
    refine (h.freeOwned_meets a).mono ?_ (fun _ _ hR => hR) (fun _ hH => hH)
    intro _ k' htook
    refine ⟨m, a, hm, hreached, htook, ?_⟩
    have hm' : k'.directMap? = some m := htook.touches.directMap_eq.trans hm
    simp only [Op.run_directMap hm', andThen_done, hreached, Transition.liftM_ok,
      Transition.run_pure]

end Kernel.Holds
end SoftPaging
