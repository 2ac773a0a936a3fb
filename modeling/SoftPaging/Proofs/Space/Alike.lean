import Mathlib
import SoftPaging.Proofs.Paging.Alike
import SoftPaging.Proofs.Space.Cloning
import SoftPaging.Proofs.Space.Loading
import SoftPaging.Proofs.Space.Servicing

/-!
# Address spaces on kernels that look alike

The regions of a space are not in RAM, so all that an operation on a space learns from it is what its
page table shows. When the table is held on two kernels that look alike, every operation on the space
comes to the same on both: the same answer or the same refusal, the same entry in the TLB, and kernels
that look alike again.
-/

namespace SoftPaging

open Outcome
open Transition (Tracks ReadsAlike)

variable {k k' : Kernel} {p : FramePool} {X : Set Nat} {m : TableMap} {rest live : List Block}
  {t : PageTable} {τ : Type} [TlbDevice τ]

/-! ## Mapping on demand -/

namespace PageTable.HeldAlike

theorem tracks_mapOnDemand (h : t.HeldAlike p m rest X k k') (a : VirtualAddress)
    (writable : Bool) : (t.mapOnDemand a writable).Tracks (Kernel.Alike p X) k k' := by
  unfold mapOnDemand
  refine (h.tracks_openSlot _).bind fun created k₁ k₁' hopen h₁ => ?_
  obtain ⟨⟨m₁, hheld, -⟩, -⟩ := (h.held.openSlot_becomes _).of_done hopen
  refine ((HeldAlike.mk hheld h₁ h.hidden).tracks_mapPage _ _ _).onRefusal
    fun cause k₂ k₂' hrefused h₂ => ?_
  obtain ⟨-, rfl⟩ := (hheld.mapPage_becomes _ _ _).of_refused hrefused
  split
  · exact (HeldAlike.mk (hheld.push _) h₂ h.hidden).tracks_closeSlot _
  · exact .pure _ h₂

end PageTable.HeldAlike

/-! ## Faults -/

/-- A stage of a fault that only looks. -/
theorem Kernel.Alike.bind_inStage {α β : Type} {x : Op α} {f : α → Op β} (h : k.Alike p X k')
    (hx : x.ReadsAlike k k') (code : Nat) (a : VirtualAddress) (stage : FaultStage)
    (hf : ∀ b, x.run k = .done b k → (f b).Tracks (Kernel.Alike p X) k k') :
    (Op.inStage code a stage x >>= f).Tracks (Kernel.Alike p X) k k' := by
  unfold Tracks Op.inStage
  unfold ReadsAlike Tracks at hx
  rw [Transition.run_bind, Transition.run_bind, Transition.run_onRefusal, Transition.run_onRefusal]
  generalize x.run k = o, x.run k' = o' at hx hf
  cases hx with
  | done hsame =>
    obtain ⟨rfl, rfl⟩ := hsame
    exact hf _ rfl
  | refused hsame =>
    obtain ⟨rfl, rfl⟩ := hsame
    exact .refused (h.push _)
  | halted cause => exact .halted cause

theorem FaultKind.reads_serviceable (code : Nat) :
    (FaultKind.serviceable code).ReadsAlike k k' := by
  unfold FaultKind.serviceable
  split
  · exact .refuse _
  · exact .pure _
  · exact .refuse _

theorem AddressSpace.reads_writableAt (s : AddressSpace) (a : VirtualAddress) :
    (s.writableAt a).ReadsAlike k k' := by
  unfold AddressSpace.writableAt
  split
  · exact (ReadsAlike.refuse _).bind fun _ hrun => by cases hrun
  · refine (ReadsAlike.lift _).bind fun region? _ => ?_
    cases region? with
    | some region => exact .pure _
    | none =>
      refine (ReadsAlike.lift _).bind fun inside _ => ?_
      split
      · exact .pure _
      · exact .refuse _

theorem Kernel.Alike.tracks_serviceFault (h : k.Alike p X k') {space? : Option AddressSpace}
    (hs : ∀ s, space? = some s → ∃ m rest, s.table.Held k p m rest ∧ X ⊆ bytesOf rest)
    (code : Nat) (a : VirtualAddress) (mmu : Mmu τ) :
    (serviceFault space? code a mmu).Tracks (Kernel.Alike p X) k k' := by
  unfold serviceFault
  refine (h.tracks_record _).bind fun _ k₁ k₁' hrun h₁ => ?_
  cases hrun
  refine h₁.bind_inStage (FaultKind.reads_serviceable code) _ _ _ fun kind _ => ?_
  refine (h₁.tracks_record _).bind fun _ k₂ k₂' hrun h₂ => ?_
  cases hrun
  cases space? with
  | none => exact h₂.bind_inStage (.refuse _) _ _ _ fun _ hrun => by cases hrun
  | some s =>
    obtain ⟨m, rest, hheld, hX⟩ := hs s rfl
    refine h₂.bind_inStage ((s.reads_writableAt a).bind fun _ _ => .pure _) _ _ _ fun x hx => ?_
    obtain rfl : x.1 = s := by
      rw [Transition.run_bind] at hx
      cases hw : (s.writableAt a).run ((k.push (.faultRaised code a)).push
        (.faultStage kind a .region)) with
      | done writable k₃ =>
        rw [hw] at hx
        cases hx
        rfl
      | refused cause k₃ =>
        rw [hw] at hx
        cases hx
      | halted cause =>
        rw [hw] at hx
        cases hx
    refine (h₂.tracks_record _).bind fun _ k₃ k₃' hrun h₃ => ?_
    cases hrun
    have hheld₃ := ((hheld.push (.faultRaised code a)).push (.faultStage kind a .region)).push
      (.faultStage kind a .mapping)
    refine Tracks.bind (Tracks.onRefusal ((PageTable.HeldAlike.mk hheld₃ h₃ hX).tracks_mapOnDemand a
      x.2) fun _ _ _ _ h => h.tracks_record _) fun entry k₄ k₄' _ h₄ => ?_
    refine (h₄.tracks_record _).bind fun _ k₅ k₅' _ h₅ => ?_
    exact (h₅.tracks_record _).bind fun _ _ _ _ h₆ => .pure _ h₆

/-! ## Operations on spaces -/

namespace AddressSpace

theorem tracks_create (h : k.Alike p X k') (hk : k.Holds p live) :
    create.Tracks (Kernel.Alike p X) k k' := by
  unfold create
  refine (h.tracks_createTable hk).bind fun table k₁ k₁' _ h₁ => ?_
  exact (h₁.tracks_record _).bind fun _ _ _ _ h₂ => .pure _ h₂

/-- Defining a region has nothing to do with memory. -/
theorem tracks_addRegion (h : k.Alike p X k') (s : AddressSpace) (start : VirtualAddress)
    (size : Nat) (permissions : Permissions) :
    (s.addRegion start size permissions).Tracks (Kernel.Alike p X) k k' := by
  unfold addRegion
  refine (ReadsAlike.lift _).tracks_bind h fun base _ => ?_
  split
  · exact (h.tracks_record _).bind fun _ _ _ _ h₁ => .refuse _ h₁
  · refine (ReadsAlike.lift _).tracks_bind h fun count _ => ?_
    refine (ReadsAlike.lift _).tracks_bind h fun region _ => ?_
    refine (h.tracks_record _).bind fun _ _ _ _ h₁ => ?_
    exact (ReadsAlike.lift _).tracks_bind h₁ fun _ _ => .pure _ h₁

variable {s : AddressSpace}

theorem tracks_endLoad (hs : s.Sound) (h : s.table.HeldAlike p m rest X k k') (mmu : Mmu τ) :
    (s.endLoad mmu).Tracks (Kernel.Alike p X) k k' := by
  unfold endLoad
  refine h.reads_mappings.tracks_bind h.alike fun mapped hmapped => ?_
  obtain ⟨rfl, -⟩ := Outcome.done.inj (h.held.run_mappings.symm.trans hmapped)
  refine .bind_of_run (hs.run_filterM k.ram k) (hs.run_filterM k.ram k') ?_
  refine Transition.Matches.bind (Transition.Matches.forM
    (I := fun _ k => ∃ m, s.table.Held k p m rest) ?_ ?_ _ _ _ ⟨m, h.held⟩ h.alike)
    fun _ k₁ k₁' _ hloop => ?_
  · rintro x xs k₁ k₁' ⟨m₁, hheld⟩ h₁
    exact ((PageTable.HeldAlike.mk hheld h₁ h.hidden).tracks_writeProtect x.1).discard
  · rintro x xs k₁ k₂ ⟨m₁, hheld⟩ hrun
    obtain ⟨k₃, hprotect, hheld', -⟩ := hheld.writeProtect_held x.1
    have hround := (congrArg (·.andThen fun _ k => done () k) hprotect).symm.trans hrun
    cases hround
    exact ⟨_, hheld'⟩
  · split
    · exact (hloop.2.tracks_record _).bind fun _ _ _ _ h₂ => .pure _ h₂
    · exact .done hloop.2

theorem tracks_destroy (h : s.table.HeldAlike p m rest X k k') :
    s.destroy.Tracks (Kernel.Alike p X) k k' := by
  unfold destroy
  refine h.reads_residentPages.tracks_bind h.alike fun pages _ => ?_
  refine (h.alike.tracks_record _).bind fun _ k₁ k₁' hrun h₁ => ?_
  cases hrun
  exact (PageTable.HeldAlike.mk (h.held.push _) h₁ h.hidden).tracks_tearDown

theorem tracks_copy (h : s.table.HeldAlike p m rest X k k') :
    s.copy.Tracks (Kernel.Alike p X) k k' := by
  unfold copy
  refine (tracks_create h.alike h.held.holds).bind fun fresh k₁ k₁' hcreate h₁ => ?_
  obtain ⟨-, hfresh, hsame₁⟩ := (create_vacant h.held.holds).of_done hcreate
  have ht₁ := h.held.shows.of_sameBlocks hsame₁
  have hfresh' : fresh.table.HeldAlike p .vacant (s.table.blocks m ++ rest) X k₁ k₁' :=
    ⟨hfresh, h₁, bytesOf_subset_append h.hidden⟩
  refine Tracks.bind (Tracks.onRefusal (hfresh'.tracks_copyTo ht₁ h.hidden)
    fun cause k₂ k₂' hrefused h₂ => ?_) fun _ k₂ k₂' hdone h₂ => ?_
  · obtain ⟨-, V, S, n, hcopying, -⟩ := (PageTable.run_copyTo hfresh ht₁).of_refused hrefused
    have hsource := hcopying.sourceAlike hfresh ht₁ h₂ h.hidden
    have htarget : fresh.table.HeldAlike p n (s.table.blocks m ++ rest) X k₂ k₂' :=
      ⟨hcopying.held, h₂, bytesOf_subset_append h.hidden⟩
    refine htarget.reads_residentPages.tracks_bind h₂ fun copied _ => ?_
    refine hsource.reads_residentPages.tracks_bind h₂ fun pages _ => ?_
    refine (h₂.tracks_record _).bind fun _ k₃ k₃' hrun h₃ => ?_
    cases hrun
    exact tracks_destroy (s := { s with table := fresh.table })
      ⟨hcopying.held.push _, h₃, bytesOf_subset_append h.hidden⟩
  · obtain ⟨n, hcopying⟩ := (PageTable.run_copyTo hfresh ht₁).of_done
      (Transition.done_of_onRefusal hdone)
    have htarget : fresh.table.HeldAlike p n (s.table.blocks m ++ rest) X k₂ k₂' :=
      ⟨hcopying.held, h₂, bytesOf_subset_append h.hidden⟩
    refine htarget.reads_residentPages.tracks_bind h₂ fun pages _ => ?_
    exact (h₂.tracks_record _).bind fun _ _ _ _ h₃ => .pure _ h₃

end AddressSpace

end SoftPaging
