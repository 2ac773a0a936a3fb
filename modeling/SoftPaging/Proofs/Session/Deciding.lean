import Mathlib
import SoftPaging.Proofs.Session.Spaces
import SoftPaging.Proofs.Space.Deciding

/-!
# How a fault is answered

In every session that a client can come to, the answer to a fault is decided by its code, by whether
there may be a page at its address, and by how many frames are free (`fault_answers`). No frame needs
to be free for a page that is resident.

It makes no difference what device stands behind the MMU: the TLB is written to only after everything
is decided.
-/

namespace SoftPaging

open Outcome

namespace Session

variable {p : FramePool} {s s₀ : Session} {trace : List (Request × Bool)}
  {space? : Option AddressSpace} {τ : Type} [TlbDevice τ]

/-- A fault is answered as is decided. -/
theorem Sound.serviceFault_decided (h : s.Sound p)
    (hspace : ∀ sp, space? = some sp → ∃ i, s.object i = some (.space sp)) (code : Nat)
    (a : VirtualAddress) (mmu : Mmu τ) :
    ((serviceFault space? code a mmu).run s.kernel).Meets
      (fun _ _ => faultRefusal? p s.kernel.ram space? code a = none)
      (fun cause _ => faultRefusal? p s.kernel.ram space? code a = some cause) never := by
  cases space? with
  | none =>
    exact serviceFault_nowhere.mono (fun _ _ hfalse => hfalse.elim) (fun _ _ hR => hR)
      fun _ hH => hH
  | some sp =>
    obtain ⟨i, ho⟩ := hspace sp rfl
    have hheld := h.held ho (t := sp.table) rfl
    exact (serviceFault_supplies (h.take ho).2.1 hheld code a mmu).mono (fun _ _ hQ => hQ.1)
      (fun _ _ hR => hR) fun _ hH => hH

/-- In every session that a client can come to, a fault in one of its spaces, or in none, is answered
as its code, its address and the free frames decide. -/
theorem fault_answers (hboot : s₀.Booted p)
    (hruns : Runs (fun s r => r.Permitted p s) s₀ trace s)
    (hspace : ∀ sp, space? = some sp → ∃ i, s.object i = some (.space sp)) (code : Nat)
    (a : VirtualAddress) (mmu : Mmu τ) :
    FaultAnswers p s.kernel.ram space? code a
      (fun cause => ∃ k', (serviceFault space? code a mmu).run s.kernel = .refused cause k')
      (∃ mmu' k', (serviceFault space? code a mmu).run s.kernel = .done mmu' k') :=
  .of_meets ((hruns.sound (fun _ _ hr => hr) hboot.sound).serviceFault_decided hspace code a mmu)

/-- On three pages of RAM, of which the first holds the records and the second a directory, the first
fault of a space finds one frame free where it needs two. -/
theorem three_pages_answered : ∃ (s₀ s : Session) (sp : AddressSpace),
    s₀.Booted (pages 3) ∧ Runs (fun s r => r.Permitted (pages 3) s) s₀ [(.newSpace, true)] s ∧
      s.object 0 = some (.space sp) ∧
        FaultAnswers (pages 3) s.kernel.ram (some sp) 0 stackPage
          (fun cause => ∃ k', (serviceFault (some sp) 0 stackPage s.mmu).run s.kernel =
            .refused cause k')
          (∃ mmu k', (serviceFault (some sp) 0 stackPage s.mmu).run s.kernel = .done mmu k') ∧
            ∃ k', (serviceFault (some sp) 0 stackPage s.mmu).run s.kernel =
              .refused .outOfMemory k' := by
  obtain ⟨s₀, s, sp, hboot, -, hmade, hsound, -, halone, -, hvacant⟩ :=
    exists_alone (n := 3) (by decide) (by decide)
  have hruns : Runs (fun s r => r.Permitted (pages 3) s) s₀ [(.newSpace, true)] s :=
    .granted .start trivial hmade
  have hspace : ∀ sp', some sp = some sp' → ∃ i, s.object i = some (.space sp') := by
    rintro _ ⟨rfl⟩
    exact ⟨0, halone.object_eq⟩
  have hanswers := fault_answers hboot hruns hspace 0 stackPage s.mmu
  have hneed := hsound.need_of_vacant halone.object_eq hvacant stackPage
  have hfree : (pages 3).freeFrames s.kernel.ram = 1 := by
    rw [halone.freeFrames_eq hsound, hvacant, TableMap.blocks_vacant]
    rfl
  refine ⟨s₀, s, sp, hboot, hruns, halone.object_eq, hanswers, hanswers.outOfMemory_iff.2 ?_⟩
  refine ⟨by decide, sp, rfl, reaches_stackPage sp, ?_⟩
  rw [hneed, hfree]
  decide

end Session

end SoftPaging
