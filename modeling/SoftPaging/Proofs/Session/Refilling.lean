import Mathlib
import SoftPaging.Proofs.Session.Fitness
import SoftPaging.Proofs.Session.Spaces
import SoftPaging.Proofs.Session.Steady
import SoftPaging.Proofs.Tlb.Replacement

/-!
# Refilling without a flush

Between two flushes the TLB of a session changes only by the entries that faults install, each by one
random write (`Runs.refilled`). These go round the slots that are not wired, so that the pages of the
last 56 faults are all found at the same time (`replacement_goes_round`), whatever else was asked of
spaces, tables, cells and frames between the faults.
-/

namespace SoftPaging

open Outcome

namespace Request

/-- The address of a fault. -/
def faultAddress? : Request → Option VirtualAddress
  | fault _ _ a => some a
  | _ => none

/-- The TLB is at most refilled: the request is a fault, in a space that is there if in any, or does
nothing to the TLB. -/
def Refills (s : Session) : Request → Prop
  | fault (some i) _ _ => ∃ sp, s.object i = some (.space sp)
  | fault none _ _ => True
  | endLoad _ => False
  | drive f => ∀ mmu, (f mmu).tlb = mmu.tlb
  | _ => True

theorem faultAddress?_of_steady {r : Request} (hr : r.Steady) : r.faultAddress? = none := by
  cases r with
  | fault i? code a => exact hr.elim
  | _ => rfl

end Request

namespace Session

variable {P : Session → Request → Prop} {s s' s₀ s₁ : Session} {before trace : List (Request × Bool)}
  {r : Request}

/-- The addresses of the faults that were serviced, oldest first. -/
def faulted (trace : List (Request × Bool)) : List VirtualAddress :=
  trace.filterMap fun x => if x.2 then x.1.faultAddress? else none

theorem faulted_granted (trace : List (Request × Bool)) (r : Request) :
    faulted (trace ++ [(r, true)]) = faulted trace ++ r.faultAddress?.toList := by
  unfold faulted
  rw [List.filterMap_append]
  cases h : r.faultAddress? <;> simp [h]

theorem faulted_refused (trace : List (Request × Bool)) (r : Request) :
    faulted (trace ++ [(r, false)]) = faulted trace := by
  simp [faulted]

/-- A fault in a space that is serviced refills the TLB with its address. -/
theorem refilled_fault (hfits : s.Fits) {i : Nat} {sp : AddressSpace}
    (ho : s.object i = some (.space sp)) (code : Nat) (a : VirtualAddress) :
    ((perform (.fault (some i) code a)).run s).Meets
      (fun _ s' => s.mmu.tlb.Refilled [a] s'.mmu.tlb) (fun _ s' => s'.mmu.tlb = s.mmu.tlb)
      fun _ => True := by
  have hanswers : (do return (sp, ← serviceFault (some sp) code a s.mmu) :
      Op (AddressSpace × Mmu TlbBuffer)).Answers fun after => ∃ e : PageEntry, e.isValid = true ∧
        after.2 = s.mmu.install (.forPage a e) :=
    (serviceFault_answers (hfits.fit ho) code a s.mmu).bind fun _ hmmu =>
      Transition.answers_pure hmmu.2
  have hrun : (perform (.fault (some i) code a)).run s = _ := run_onSpace ho _
  rw [hrun]
  refine Outcome.Meets.andThen (op_meets ?_)
  refine (hanswers s.kernel).mono ?_ (fun _ _ _ => rfl) fun _ hH => hH
  rintro ⟨sp', mmu⟩ k ⟨e, he, rfl⟩
  have hmatch : (TlbEntry.forPage a e).isMatch a = true :=
    TlbEntry.isMatch_iff.2 ⟨he, EntryHi.page_ofAddress a⟩
  exact .done (TlbBuffer.Refilled.writeRandom hmatch)

/-- A request that at most refills the TLB does so when it is a fault that is serviced. -/
theorem perform_refills (hfits : s.Fits) (hr : r.Refills s) :
    ((perform r).run s).Meets (fun _ s' => s.mmu.tlb.Refilled r.faultAddress?.toList s'.mmu.tlb)
      (fun _ s' => s'.mmu.tlb = s.mmu.tlb) fun _ => True := by
  by_cases hsteady : r.Steady
  · rw [Request.faultAddress?_of_steady hsteady]
    refine (perform_steady hsteady s).mono (fun _ s' heq => ?_) (fun _ s' heq => ?_) fun _ => id
    · rw [heq]
      exact .refl s.mmu.tlb
    · rw [heq]
  cases r with
  | fault i? code a =>
    cases i? with
    | some i =>
      obtain ⟨sp, ho⟩ := hr
      exact refilled_fault hfits ho code a
    | none =>
      refine Outcome.Meets.andThen (op_meets ?_)
      exact (serviceFault_none_answers code a s.mmu s.kernel).mono (fun _ _ hnone => hnone.elim)
        (fun _ _ _ => rfl) fun _ hH => hH
  | endLoad i => exact hr.elim
  | drive f =>
    refine .done ?_
    show s.mmu.tlb.Refilled [] (f s.mmu).tlb
    rw [hr s.mmu]
    exact .refl s.mmu.tlb
  | _ => exact absurd trivial hsteady

/-- Without a flush, the TLB is refilled with the addresses of the faults that were serviced. -/
theorem Runs.refilled (hruns : Runs (fun s r => r.Refills s) s₁ trace s) (hfits : s₁.Fits) :
    s.Fits ∧ s₁.mmu.tlb.Refilled (faulted trace) s.mmu.tlb := by
  induction hruns with
  | start => exact ⟨hfits, .refl s₁.mmu.tlb⟩
  | granted _ hr hrun ih =>
    refine ⟨(perform_fits _ _ ih.1).of_done hrun, ?_⟩
    rw [faulted_granted]
    exact ih.2.trans ((perform_refills ih.1 hr).of_done hrun)
  | refused _ hr hrun ih =>
    refine ⟨(perform_fits _ _ ih.1).of_refused hrun, ?_⟩
    rw [faulted_refused, (perform_refills ih.1 hr).of_refused hrun]
    exact ih.2

/-- Random replacement goes round the slots that are not wired, whatever was done to the TLB since it
started out invalid. So at any time of a session, the pages of up to 56 faults that are serviced from
then on without a flush are all hits at the end. -/
theorem replacement_goes_round :
    (∀ acts b, TlbBuffer.empty.run acts = .ok b → b.RoundRobin) ∧
      ∀ (P : Session → Request → Prop) (s₀ s₁ s : Session) (before trace : List (Request × Bool)),
        s₀.objects = [] → Runs P s₀ before s₁ → Runs (fun s r => r.Refills s) s₁ trace s →
          (faulted trace).length ≤ 56 → ∀ a ∈ faulted trace,
            (s.mmu.tlb.probe a).isSome = true ∧ (s.mmu.tlb.translate a).isSome = true := by
  refine ⟨fun _ _ => TlbBuffer.roundRobin_of_run, ?_⟩
  intro P s₀ s₁ s before trace hempty hbefore hruns hlen a ha
  exact (hruns.refilled (hbefore.fits hempty)).2.isSome hlen ha

/-- On eight pages of RAM, two pages of a stack are faulted in one after the other, and both are hits. -/
theorem eight_pages_go_round : ∃ (s₀ s₁ s : Session) (before trace : List (Request × Bool))
    (acts : List TlbAct) (b : TlbBuffer), TlbBuffer.empty.run acts = .ok b ∧ b.RoundRobin ∧
      s₀.objects = [] ∧ Runs (fun _ _ => True) s₀ before s₁ ∧
        Runs (fun s r => r.Refills s) s₁ trace s ∧ (faulted trace).length ≤ 56 ∧
          faulted trace = [stackPage, ⟨userStackTop - 2 * pageSize, by decide⟩] ∧
            ∀ a ∈ faulted trace,
              (s.mmu.tlb.probe a).isSome = true ∧ (s.mmu.tlb.translate a).isSome = true := by
  obtain ⟨s₀, s₁, sp, hboot, htlb, hmade, hsound, hmmu, halone, -, hvacant⟩ :=
    exists_alone (n := 8) (by decide) (by decide)
  obtain ⟨s₂, hfault, hsound₂, halone₂, hcount⟩ := halone.fault_done hsound (by decide) hvacant
    (reaches_stackPage sp)
  have hfree : 2 ≤ (pages 8).freeFrames s₂.kernel.ram := by
    rw [halone₂.freeFrames_eq hsound₂, hcount]
    decide
  obtain ⟨s₃, hfault', -⟩ := hsound₂.fault_done halone₂.object_eq Nat.one_lt_two
    (a := ⟨userStackTop - 2 * pageSize, by decide⟩) ⟨by decide, .inr (by decide)⟩
    ((PageTable.need_le_two ..).trans hfree)
  have hbefore : Runs (fun _ _ => True) s₀ [(.newSpace, true)] s₁ := .granted .start trivial hmade
  have hruns : Runs (fun s r => r.Refills s) s₁ [(.fault (some 0) 0 stackPage, true),
      (.fault (some 0) 1 ⟨userStackTop - 2 * pageSize, by decide⟩, true)] s₃ :=
    (Runs.granted .start ⟨sp, halone.object_eq⟩ hfault).granted ⟨sp, halone₂.object_eq⟩ hfault'
  have hround := replacement_goes_round
  let acts : List TlbAct := [.write 3 (.invalid 5), .flush, .writeRandom (.invalid 0)]
  refine ⟨s₀, s₁, s₃, _, _, acts, _, rfl, hround.1 acts _ rfl, hboot.objects_eq, hbefore, hruns,
    by decide, rfl, ?_⟩
  exact hround.2 _ _ _ _ _ _ hboot.objects_eq hbefore hruns (by decide)

end Session

end SoftPaging
