import Mathlib
import SoftPaging.Proofs.Pool.FirstFit

/-!
# Running out of frames

How the pool answers a request for more frames than it may have, at every state that a client is left
with (`reachable_answers`). As long as the end of the first window of that size can be computed, it
answers: the request is served, or it is refused and RAM stays as it is. The end is the sum of the
number of reserved frames and of the number asked for, and for a request so large that the sum leaves
the word, the search halts where it should find that there is no room.

Every pool reserves a frame for its records. So the largest request there is always halts
(`three_pages_overflow`).
-/

namespace SoftPaging

open Outcome

/-- A search of the pool halts just where the end of its first window cannot be computed. -/
theorem FramePool.Sound.find_error_iff {p : FramePool} (h : p.Sound) (ram : Ram) {count : Nat}
    (hcount : 0 < count) :
    p.find ram count = .error .addOverflow ↔ wordLimit ≤ p.reserved + count := by
  constructor
  · intro herror
    by_contra hword
    obtain ⟨o, ho⟩ : ∃ o, p.find ram count = .ok o := h.find_ok (Nat.not_le.1 hword)
    rw [ho] at herror
    cases herror
  · intro hword
    have hreserved := h.reserved_lt
    have htotal := h.twice_total_lt
    exact find_overflow (by omega) hword

namespace Ledger

variable {p : FramePool} {l : Ledger} {count : Nat}

/-- How a request for `count` frames is answered, of which there may be fewer. -/
structure Answers (p : FramePool) (l : Ledger) (count : Nat) : Prop where
  overflow_iff : (Op.allocate count).run l.kernel = .halted .addOverflow ↔
    wordLimit ≤ p.reserved + count
  cleared_overflow : wordLimit ≤ p.reserved + count →
    (Op.allocateCleared count).run l.kernel = .halted .addOverflow
  kernelPages_overflow : wordLimit ≤ p.reserved + count →
    (Op.allocateKernelPages count).run l.kernel = .halted .addOverflow
  /-- Up to there the request is served, or refused with RAM as it is. -/
  allocate : p.reserved + count < wordLimit →
    ((Op.allocate count).run l.kernel).Meets (fun _ _ => True)
      (fun cause k => cause = .outOfMemory ∧ k.ram = l.kernel.ram) never
  /-- So it is when the frames are to be cleared, which takes that they are reached. -/
  allocateCleared : p.reserved + count < wordLimit → l.kernel.Covers (p.total * pageSize) →
    ((Op.allocateCleared count).run l.kernel).Meets (fun _ _ => True)
      (fun cause k => cause = .outOfMemory ∧ k.ram = l.kernel.ram) never
  /-- The kernel is told that there are no pages by being given none. -/
  allocateKernelPages : p.reserved + count < wordLimit → l.kernel.Covers (p.total * pageSize) →
    ((Op.allocateKernelPages count).run l.kernel).Meets
      (fun v? k => v? = none → k.ram = l.kernel.ram) (fun _ _ => False) never

theorem Sound.run_allocate_overflow_iff (h : l.Sound p) (hcount : 0 < count) :
    (Op.allocate count).run l.kernel = .halted .addOverflow ↔ wordLimit ≤ p.reserved + count := by
  have herror := h.lends.sound.find_error_iff l.kernel.ram hcount
  rw [← herror, run_allocate h.lends.toHosts hcount]
  cases hfind : p.find l.kernel.ram count with
  | error cause => simp
  | ok o => cases o <;> simp

/-- What is asked for in whole windows that end inside the word is served or refused. -/
theorem Sound.allocate_answers (h : l.Sound p) (hcount : 0 < count)
    (hword : p.reserved + count < wordLimit) :
    ((Op.allocate count).run l.kernel).Meets
      (fun a k => k.directMap? = l.kernel.directMap? ∧ a.val < p.total * pageSize)
      (fun cause k => cause = .outOfMemory ∧ k.ram = l.kernel.ram) never := by
  apply (h.lends.allocate hcount).mono
  · rintro a k ⟨s, rfl, hfit, rfl, -⟩
    have hpast : s + count ≤ p.total := hfit.1.1.2.2
    have hlt : s < p.total := by omega
    refine ⟨rfl, ?_⟩
    rw [val_frameAt (h.lends.sound.frame_lt hlt)]
    simp only [pageSize]
    omega
  · rintro cause k ⟨rfl, -, rfl⟩
    exact ⟨rfl, rfl⟩
  · rintro cause ⟨-, hover⟩
    exact absurd hword (Nat.not_lt.2 hover)

theorem Sound.allocateCleared_answers (h : l.Sound p) (hcount : 0 < count)
    (hword : p.reserved + count < wordLimit) (hcovers : l.kernel.Covers (p.total * pageSize)) :
    ((Op.allocateCleared count).run l.kernel).Meets (fun _ _ => True)
      (fun cause k => cause = .outOfMemory ∧ k.ram = l.kernel.ram) never := by
  apply (h.lends.allocateCleared hcount).mono
  · exact fun _ _ _ => trivial
  · rintro cause k ⟨rfl, -, rfl⟩
    exact ⟨rfl, rfl⟩
  · rintro cause (⟨-, hover⟩ | huncovered)
    · exact absurd hword (Nat.not_lt.2 hover)
    · exact huncovered hcovers

theorem Sound.allocateKernelPages_answers (h : l.Sound p) (hcount : 0 < count)
    (hword : p.reserved + count < wordLimit) (hcovers : l.kernel.Covers (p.total * pageSize)) :
    ((Op.allocateKernelPages count).run l.kernel).Meets
      (fun v? k => v? = none → k.ram = l.kernel.ram) (fun _ _ => False) never := by
  have hanswer := h.allocate_answers hcount hword
  unfold Op.allocateKernelPages
  rw [Transition.run_bind, Transition.run_attempt]
  cases hrun : (Op.allocate count).run l.kernel with
  | halted cause => exact (hanswer.of_halted hrun).elim
  | refused cause k =>
    exact .done fun _ => (hanswer.of_refused hrun).2
  | done a k =>
    obtain ⟨hmap, hlt⟩ := hanswer.of_done hrun
    obtain ⟨v, hv⟩ := Op.run_directMapped_of_covers (hcovers.congr hmap) hlt
    simp only [andThen_done, Transition.run_bind, hv, Transition.run_pure]
    exact .done fun hnone => by cases hnone

/-- Whatever was allocated and freed before, a request for frames halts the machine just when the
number of reserved frames and the number asked for add up to more than a word. -/
theorem reachable_answers (h : l.Reachable p) (hcount : 1 ≤ count) : l.Answers p count := by
  have hsound := h.sound
  have hover := hsound.run_allocate_overflow_iff hcount
  constructor
  · exact hover
  · intro hword
    unfold Op.allocateCleared
    rw [Transition.run_bind, hover.2 hword, andThen_halted]
  · intro hword
    unfold Op.allocateKernelPages
    rw [Transition.run_bind, Transition.run_attempt, hover.2 hword]
    rfl
  · intro hword
    exact (hsound.allocate_answers hcount hword).mono (fun _ _ _ => trivial) (fun _ _ hR => hR)
      (fun _ hH => hH)
  · exact hsound.allocateCleared_answers hcount
  · exact hsound.allocateKernelPages_answers hcount

/-- On three pages of RAM, the largest request there is meets this statement. -/
theorem three_pages_answers : ∃ k,
    (Op.bootPool 12288 0).run ⟨Ram.zeroed 12288, some (.window 0 12288), none, #[]⟩ =
        .done (.layout 12288 0) k ∧
      (start k).Answers (.layout 12288 0) 18446744073709551615 := by
  have hsize : 12288 % pageSize = 0 := rfl
  obtain ⟨k, hboot, hreachable, -⟩ := exists_reachable hsize (by decide)
  exact ⟨k, hboot, reachable_answers hreachable (by decide)⟩

/-- A pool that was just set up halts on that request, where it has no room for it. -/
theorem three_pages_overflow : ∃ k,
    (Op.bootPool 12288 0).run ⟨Ram.zeroed 12288, some (.window 0 12288), none, #[]⟩ =
        .done (.layout 12288 0) k ∧
      Reachable (.layout 12288 0) (start k) ∧
      (∀ s, ¬ (FramePool.layout 12288 0).HasRoom k.ram ⟨s, 18446744073709551615⟩) ∧
      (Op.allocate 18446744073709551615).run k = .halted .addOverflow := by
  have hsize : 12288 % pageSize = 0 := rfl
  obtain ⟨k, hboot, hreachable, -⟩ := exists_reachable hsize (by decide)
  refine ⟨k, hboot, hreachable, fun s hroom => ?_, ?_⟩
  · have hpast : s + 18446744073709551615 ≤ 3 := hroom.1.2.2
    omega
  · exact (hreachable.sound.run_allocate_overflow_iff (by decide)).2 (by decide)

end Ledger

end SoftPaging
