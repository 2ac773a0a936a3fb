import Mathlib
import SoftPaging.Proofs.Session.Lasting

/-!
# Sound regions, whatever the client does

The regions of an address space lie in no memory that a client can reach, so they are sound after any
requests at all, also those that a client is not permitted: it may overwrite page tables, or give back
the frames under them (`Runs.fits`).
-/

namespace SoftPaging

open Transition (answers_any answers_bind answers_pure)

namespace Session

variable {P : Session → Request → Prop} {s s₀ : Session} {trace : List (Request × Bool)} {i : Nat}
  {o : Object}

/-- The address spaces among the objects have sound regions. -/
def Fits (s : Session) : Prop := ∀ o, some o ∈ s.objects → o.Fit

theorem fits_of_empty (h : s.objects = []) : s.Fits := by
  intro o ho
  rw [h] at ho
  cases ho

namespace Fits

theorem fit (h : s.Fits) (ho : s.object i = some o) : o.Fit :=
  h o (List.mem_of_getElem? (object_eq_some.1 ho))

theorem put (h : s.Fits) {o? : Option Object} (ho : ∀ o, o? = some o → o.Fit) (i : Nat) :
    (s.put i o?).Fits := by
  intro o hmem
  rcases List.mem_or_eq_of_mem_set hmem with hold | hnew
  · exact h o hold
  · exact ho o hnew.symm

theorem keep (h : s.Fits) (ho : o.Fit) : (s.keep o).Fits := by
  intro o' hmem
  rcases List.mem_append.1 hmem with hold | hnew
  · exact h o' hold
  · rwa [Option.some.inj (List.mem_singleton.1 hnew)]

end Fits

theorem lasting_fits : Lasting Fits where
  withKernel _ := id
  withBlocks _ := id
  put_none i h := h.put (fun _ ho => by cases ho) i
  keep ho h := h.keep ho

/-- Work on a space that leaves its regions sound. -/
theorem upholds_fits_onSpace {f : AddressSpace → Mmu TlbBuffer → Op (AddressSpace × Mmu TlbBuffer)}
    (hf : ∀ sp mmu, sp.Sound → (f sp mmu).Answers fun after => after.1.Sound) :
    Upholds Fits (onSpace i f) := by
  refine lasting_fits.onSpace fun s sp h ho => (hf sp s.mmu (h.fit ho)).mono fun after hafter k => ?_
  exact Fits.put (s := s.withKernel k) h (fun o ho => by cases ho; exact hafter) i

/-- No request spoils the regions of a space. -/
theorem perform_fits (r : Request) : Upholds Fits (perform r) := by
  cases r with
  | addRegion j start size permissions =>
    refine upholds_fits_onSpace fun sp mmu hsp => Transition.Answers.bind (P := (·.Sound)) ?_
      fun sp' hsp' => answers_pure hsp'
    exact fun k => (hsp.addRegion start size permissions k).mono (fun _ _ h => h.1)
      (fun _ _ _ => trivial) fun _ _ => trivial
  | beginLoad j => exact upholds_fits_onSpace fun sp mmu hsp => answers_pure hsp.beginLoad
  | endLoad j =>
    exact upholds_fits_onSpace fun sp mmu hsp => (hsp.endLoad_answers mmu).mono fun _ h => h.1
  | fault j? code a =>
    cases j? with
    | none =>
      exact upholds_observe fun _ => (lasting_fits.op _).bind fun _ => upholds_change fun _ => id
    | some j => exact upholds_fits_onSpace fun sp mmu hsp => answers_bind fun _ => answers_pure hsp
  | copySpace j =>
    refine lasting_fits.copySpace fun s sp h ho => ?_
    exact AddressSpace.Sound.copy_answers (h.fit ho) |>.mono fun c hc s h => h.keep hc
  | drive f => exact upholds_change fun _ => id
  | _ => exact lasting_fits.perform trivial

/-- On a machine that starts without objects, all spaces have sound regions at any time. -/
theorem Runs.fits (hruns : Runs P s₀ trace s) (hempty : s₀.objects = []) : s.Fits := by
  induction hruns with
  | start => exact fits_of_empty hempty
  | granted _ _ hrun ih => exact (perform_fits _ _ ih).of_done hrun
  | refused _ _ hrun ih => exact (perform_fits _ _ ih).of_refused hrun

/-- A space that a client has come to has sound regions. -/
theorem Runs.space_sound {sp : AddressSpace} (hruns : Runs P s₀ trace s) (hempty : s₀.objects = [])
    (ho : s.object i = some (.space sp)) : sp.Sound := (hruns.fits hempty).fit ho

end Session

end SoftPaging
