import Mathlib
import SoftPaging.Proofs.Kernel.Answers
import SoftPaging.Proofs.Space.Discipline
import SoftPaging.Proofs.Tlb.Buffer

/-!
# What an address space answers whatever memory holds

The regions of an address space are not in memory that a client could spoil, and an entry that a page
table answers for a fault is valid even if the table was overwritten. So a space that is made or copied
has sound regions, and a fault that is serviced installs a valid entry for a page of the user, on any
kernel at all.
-/

namespace SoftPaging

open Transition

/-- An entry that was made for a mapping is valid. -/
theorem PageEntry.isValid_of_map {frame : PhysicalAddress} {writable : Bool} {e : PageEntry}
    (h : PageEntry.map frame (.mapped writable) = .ok e) : e.isValid = true := by
  cases haligned : frame.isPageAligned with
  | false =>
    unfold PageEntry.map at h
    rw [Address.isAligned_pageSize, haligned] at h
    cases h
  | true =>
    rw [← frameAt_number haligned, PageEntry.map_frameAt frame.number_lt] at h
    rw [← Except.ok.inj h, Page.isValid_entry]

namespace PageTable

variable {t : PageTable}

/-- An entry that is answered is valid: it was so before, or was made for a mapping. -/
theorem mapPage_answers (t : PageTable) (slot entry : Nat) (writable : Bool) :
    (t.mapPage slot entry writable).Answers fun e => e.isValid = true := by
  refine answers_bind fun found => ?_
  obtain ⟨i, leaf?⟩ := found
  cases leaf? with
  | none => exact answers_halt _
  | some leaf =>
    refine answers_bind fun _ => answers_bind fun j => answers_bind fun old => ?_
    by_cases hvalid : old.isValid = true
    · rw [if_pos hvalid]
      exact answers_pure hvalid
    · rw [if_neg hvalid]
      refine answers_bind fun frame => ?_
      refine (answers_liftM fun e => PageEntry.isValid_of_map).bind fun e he => ?_
      exact answers_bind fun _ => answers_bind fun _ => answers_pure he

theorem mapOnDemand_answers (t : PageTable) (a : VirtualAddress) (writable : Bool) :
    (t.mapOnDemand a writable).Answers fun e => e.isValid = true :=
  answers_bind fun _ => (t.mapPage_answers _ _ writable).onRefusal _

end PageTable

namespace AddressSpace

variable {s : AddressSpace} {a : VirtualAddress} {writable : Bool}

theorem create_answers : create.Answers Sound :=
  answers_bind fun _ => answers_bind fun _ =>
    answers_pure ⟨rfl, fun _ hr => absurd hr List.not_mem_nil⟩

theorem Sound.copy_answers (h : s.Sound) : s.copy.Answers Sound := by
  refine answers_bind fun fresh => answers_bind fun _ => answers_bind fun _ => answers_bind fun _ => ?_
  exact answers_pure ⟨h.stackTop_eq, h.regions_sound⟩

/-- The end of a load leaves sound regions and an invalid TLB. -/
theorem Sound.endLoad_answers (h : s.Sound) (mmu : Mmu TlbBuffer) :
    (s.endLoad mmu).Answers fun after => after.1.Sound ∧ after.2 = mmu.flush := by
  refine answers_bind fun mapped => answers_bind fun readOnly => answers_bind fun _ => ?_
  split
  · exact answers_bind fun _ => answers_pure ⟨h.restored, rfl⟩
  · exact answers_pure ⟨h.restored, rfl⟩

/-- There is no page above the stack. -/
theorem Sound.lt_of_grants (h : s.Sound) (hgrants : s.grants a = some writable) :
    a.val < userStackTop := by
  unfold grants at hgrants
  cases hnewest : s.newestAt a with
  | some r =>
    have hcovers := decide_eq_true_iff.1 (Bool.and_eq_true_iff.1 (covers_of_newestAt hnewest)).2
    exact hcovers.trans (h.regions_sound r (mem_regions_of_newestAt hnewest)).end_lt
  | none =>
    rw [hnewest] at hgrants
    cases hwindow : inWindow a with
    | false => simp [hwindow] at hgrants
    | true => exact decide_eq_true_iff.1 (Bool.and_eq_true_iff.1 hwindow).2

end AddressSpace

/-- A fault that is serviced installs a valid entry for the page of its address, which is one of the
user. -/
theorem serviceFault_answers {s : AddressSpace} (h : s.Sound) (code : Nat) (a : VirtualAddress)
    (mmu : Mmu TlbBuffer) : (serviceFault (some s) code a mmu).Answers fun mmu' =>
      a.val < userStackTop ∧ ∃ e : PageEntry, e.isValid = true ∧ mmu' = mmu.install (.forPage a e) := by
  have hlocated : (s.writableAt a).Answers fun _ => a.val < userStackTop := by
    intro k
    rw [h.run_writableAt]
    split
    · exact .refused trivial
    · cases hgrants : s.grants a with
      | none => exact .refused trivial
      | some writable => exact .done (h.lt_of_grants hgrants)
  refine answers_bind fun _ => answers_bind fun kind => answers_bind fun _ => ?_
  have hregion : Answers (do return (s, ← s.writableAt a) : Op (AddressSpace × Bool))
      fun _ => a.val < userStackTop := hlocated.bind fun _ hlt => answers_pure hlt
  refine (hregion.onRefusal _).bind fun found hlt => answers_bind fun _ => ?_
  refine ((found.1.table.mapOnDemand_answers a found.2).onRefusal _).bind fun e he => ?_
  exact answers_bind fun _ => answers_bind fun _ => answers_pure ⟨hlt, e, he, rfl⟩

/-- A fault of a thread without an address space is never serviced. -/
theorem serviceFault_none_answers (code : Nat) (a : VirtualAddress) (mmu : Mmu TlbBuffer) :
    (serviceFault none code a mmu).Answers fun _ => False := by
  refine answers_bind fun _ => answers_bind fun kind => answers_bind fun _ => ?_
  exact (Answers.onRefusal (Q := fun _ => False) (answers_refuse _) _).bind fun _ hnone => hnone.elim

end SoftPaging
