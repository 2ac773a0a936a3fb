import Mathlib
import SoftPaging.Proofs.Session.Fitness
import SoftPaging.Proofs.Session.Spaces
import SoftPaging.Proofs.Session.Steady
import SoftPaging.Proofs.Tlb.Distinct

/-!
# One entry for a page, over a session

On a processor a fault is raised for an address that the TLB does not match. When faults are only
serviced then, and the client drives the MMU only to change between spaces, no address ever has two
entries, whatever else is asked, of any number of spaces and in any order (`Runs.unambiguous`). The
memory behind the page tables does not matter for this: an entry that is installed is valid and for a
page of the user even if the table it came from was overwritten.
-/

namespace SoftPaging

open Outcome

namespace Request

/-- A fault is raised only for an address that the TLB does not match, and the client writes nothing to
the TLB itself: it drives the MMU to activate or deactivate a space, or in ways that leave the TLB
alone. -/
def Trapped (s : Session) : Request → Prop
  | fault _ _ a => s.mmu.tlb.probe a = none
  | drive f => (∃ space?, f = AddressSpace.activate? space?) ∨
      (∃ sp : AddressSpace, f = sp.deactivate) ∨ ∀ mmu, (f mmu).tlb = mmu.tlb
  | _ => True

end Request

namespace Session

variable {s s₀ : Session} {trace : List (Request × Bool)} {i : Nat}

theorem distinct_drive {f : Mmu TlbBuffer → Mmu TlbBuffer} (hf : (Request.drive f).Trapped s)
    (h : s.mmu.tlb.Distinct) : (f s.mmu).tlb.Distinct := by
  rcases hf with ⟨space?, rfl⟩ | ⟨sp, rfl⟩ | hf
  · cases space? with
    | none => exact h
    | some sp => exact h.flush false
  · exact h.flush false
  · rw [hf]
    exact h

/-- A fault for an address that the TLB does not match leaves it with different pages. -/
theorem distinct_fault (hfits : s.Fits) (h : s.mmu.tlb.Distinct) {i? : Option Nat} (code : Nat)
    {a : VirtualAddress} (hmiss : s.mmu.tlb.probe a = none) :
    ((perform (.fault i? code a)).run s).Meets (fun _ s' => s'.mmu.tlb.Distinct)
      (fun _ s' => s'.mmu.tlb.Distinct) fun _ => True := by
  cases i? with
  | none =>
    refine Outcome.Meets.andThen (op_meets ?_)
    cases hrun : (serviceFault none code a s.mmu).run s.kernel with
    | done mmu k => exact ((serviceFault_none_answers code a s.mmu).of_done hrun).elim
    | refused cause k => exact .refused h
    | halted cause => exact .halted trivial
  | some i =>
    refine meets_onSpace (I := (·.mmu.tlb.Distinct)) h (fun _ => h) fun sp ho => ?_
    refine (serviceFault_answers (hfits.fit ho) code a s.mmu).bind fun mmu hmmu => ?_
    obtain ⟨hlt, e, he, rfl⟩ := hmmu
    exact Transition.answers_pure fun _ => h.writeRandom he (hlt.trans_le (by decide)) hmiss

/-- No request leaves the TLB with two entries for a page. -/
theorem perform_distinct (hfits : s.Fits) (h : s.mmu.tlb.Distinct) {r : Request} (hr : r.Trapped s) :
    ((perform r).run s).Meets (fun _ s' => s'.mmu.tlb.Distinct)
      (fun _ s' => s'.mmu.tlb.Distinct) fun _ => True := by
  by_cases hsteady : r.Steady
  · exact (perform_steady hsteady s).mono (fun _ _ heq => by rw [heq]; exact h)
      (fun _ _ heq => by rw [heq]; exact h) fun _ => id
  cases r with
  | fault i? code a => exact distinct_fault hfits h code hr
  | endLoad i =>
    refine meets_onSpace (I := (·.mmu.tlb.Distinct)) h (fun _ => h) fun sp ho => ?_
    refine (AddressSpace.Sound.endLoad_answers (hfits.fit ho) s.mmu).mono fun after hafter _ => ?_
    rw [hafter.2]
    exact h.flush false
  | drive f => exact .done (distinct_drive hr h)
  | _ => exact absurd trivial hsteady

theorem Runs.distinct (hruns : Runs (fun s r => r.Trapped s) s₀ trace s)
    (hempty : s₀.objects = []) (htlb : s₀.mmu.tlb = .empty) : s.mmu.tlb.Distinct := by
  induction hruns with
  | start =>
    rw [htlb]
    exact TlbBuffer.distinct_empty
  | granted h hr hrun ih => exact (perform_distinct (h.fits hempty) ih hr).of_done hrun
  | refused h hr hrun ih => exact (perform_distinct (h.fits hempty) ih hr).of_refused hrun

/-- On a machine that starts without objects and with an empty TLB, no address is matched by two slots
at any time, no wired slot is valid, and no two slots have the same page. -/
theorem tlb_unambiguous (hempty : s₀.objects = []) (htlb : s₀.mmu.tlb = .empty)
    (hruns : Runs (fun s r => r.Trapped s) s₀ trace s) : s.mmu.tlb.Unambiguous :=
  (hruns.distinct hempty htlb).unambiguous

/-- On eight pages of RAM, a page of the stack is faulted in, and its entry is the only one. -/
theorem eight_pages_unambiguous : ∃ s₀ s : Session, s₀.objects = [] ∧ s₀.mmu.tlb = .empty ∧
    Runs (fun s r => r.Trapped s) s₀ [(.newSpace, true), (.fault (some 0) 0 stackPage, true)] s ∧
      s.mmu.tlb.Unambiguous ∧ ∃ slot : Fin tlbSlots,
        (s.mmu.tlb.slots.get slot).isMatch stackPage = true := by
  obtain ⟨s₀, s₁, sp, hboot, htlb, hmade, hsound, hmmu, halone, -, hvacant⟩ :=
    exists_alone (n := 8) (by decide) (by decide)
  obtain ⟨s, hfault, -⟩ := halone.fault_done hsound (by decide) hvacant (reaches_stackPage sp)
  have hmiss : s₁.mmu.tlb.probe stackPage = none := by
    rw [hmmu, htlb]
    decide
  have hruns : Runs (fun s r => r.Trapped s) s₀
      [(.newSpace, true), (.fault (some 0) 0 stackPage, true)] s :=
    (Runs.granted .start (r := .newSpace) trivial hmade).granted hmiss hfault
  refine ⟨s₀, s, hboot.objects_eq, htlb, hruns, tlb_unambiguous hboot.objects_eq htlb hruns, ?_⟩
  obtain ⟨k', writable, e, rfl, -, hmaps⟩ :=
    (hsound.faultAt_meets halone.object_eq 0 stackPage).of_done hfault
  exact s₁.mmu.exists_match_install stackPage hmaps.isValid

end Session

end SoftPaging
