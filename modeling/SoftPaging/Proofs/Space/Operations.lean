import Mathlib
import SoftPaging.Proofs.Space.Demand
import SoftPaging.Proofs.Space.Regions

/-!
# Operations on address spaces

An address space owns what its page table owns. Making one and destroying it come to what they do to
that table: a new space shows nothing, and of a space that was destroyed nothing is left.
-/

namespace SoftPaging

open Outcome

variable {k k' : Kernel} {p : FramePool} {rest : List Block} {m : TableMap}

namespace AddressSpace

variable {s : AddressSpace}

/-- A new address space has no regions and shows nothing. Its directory lies in a frame that was
spare. -/
theorem create_meets (hk : k.Holds p rest) :
    (create.run k).Meets
      (fun s k' => s.regions = [] ∧ s.Sound ∧ s.table.Held k' p .vacant rest ∧ s.table.frame ∈ p.spare rest ∧
        Kernel.Touches p (p.spare rest) k k')
      (fun cause k' => cause = .outOfMemory ∧ k' = k.push (.noRun 1) ∧ p.spare rest = ∅) never := by
  unfold create
  refine Transition.Meets.bind (PageTable.create_meets hk) ?_
  rintro t k₁ ⟨hheld, hspare, htouches⟩
  exact .done ⟨rfl, ⟨rfl, fun r hr => absurd hr List.not_mem_nil⟩, hheld.push _, hspare,
    htouches.trans (Kernel.Touches.push p _ k₁ _)⟩

theorem create_vacant (hk : k.Holds p rest) :
    (create.run k).Meets
      (fun s k' => s.Sound ∧ s.table.Held k' p .vacant rest ∧ k.ram.SameBlocks k'.ram rest)
      (fun cause k' => cause = .outOfMemory ∧ k' = k.push (.noRun 1)) never := by
  refine (create_meets hk).mono ?_ ?_ fun _ hH => hH
  · rintro s k' ⟨-, hsound, hheld, -, htouches⟩
    exact ⟨hsound, hheld, hk.sameBlocks_of_spare htouches⟩
  · rintro cause k' ⟨hcause, hk', -⟩
    exact ⟨hcause, hk'⟩

/-- Destroying an address space writes to nothing but its second-level tables. -/
theorem destroy_done (h : s.table.Held k p m rest) :
    ∃ k', s.destroy.run k = .done () k' ∧ k'.Holds p rest ∧ Kernel.Touches p m.leafFrames k k' := by
  obtain ⟨k', hrun, hholds, htouches⟩ :=
    (h.push (.spaceDestroyed s.regions.length (s.table.mappingsIn k.ram).length)).tearDown
  refine ⟨k', ?_, hholds, (Kernel.Touches.push p _ k _).trans htouches⟩
  unfold destroy
  simp only [Transition.run_bind, h.run_residentPages, andThen_done, Op.run_record, hrun]

/-- Destroying an address space leaves the frames of the others alone. -/
theorem destroy_keeps (h : s.table.Held k p m rest) :
    ∃ k', s.destroy.run k = .done () k' ∧ k'.Holds p rest ∧ k.ram.SameBlocks k'.ram rest := by
  obtain ⟨k', hrun, hholds, htouches⟩ := destroy_done h
  exact ⟨k', hrun, hholds, h.sameBlocks htouches fun f hf => .inl (.inr hf)⟩

end AddressSpace

end SoftPaging
