import Mathlib
import SoftPaging.Proofs.Space.Servicing
import SoftPaging.Proofs.Space.Supply

/-!
# What decides a fault

Whether a fault is serviced, and why it is refused if it is not, depends on its code, on the regions of
the space and the window of the stack, and on how many frames are free. `faultRefusal?` makes this
decision in the order of the checks. A fault is refused for the cause that is decided, and serviced
when there is none (`serviceFault_supplies`).
-/

namespace SoftPaging

open Outcome

variable {k k' : Kernel} {p : FramePool} {rest : List Block} {m : TableMap} {τ : Type}
  {code : Nat} {a : VirtualAddress} {space? : Option AddressSpace} {ram : Ram}

namespace AddressSpace

variable {s : AddressSpace}

/-- There may be a page at the address: it is not zero, and it lies in a region or in the sixteen pages
below the top of the stack. -/
def Reaches (s : AddressSpace) (a : VirtualAddress) : Prop :=
  a.val ≠ 0 ∧ ((∃ r ∈ s.regions, r.base.val ≤ a.val ∧ a.val < r.base.val + r.size) ∨
    (userStackTop - 16 * pageSize ≤ a.val ∧ a.val < userStackTop))

instance (s : AddressSpace) (a : VirtualAddress) : Decidable (s.Reaches a) :=
  inferInstanceAs (Decidable (_ ∧ (_ ∨ _)))

theorem reaches_iff : s.Reaches a ↔ a.val ≠ 0 ∧ s.grants a ≠ none := by
  have hnewest : s.newestAt a = none ↔
      ¬ ∃ r ∈ s.regions, r.base.val ≤ a.val ∧ a.val < r.base.val + r.size := by
    simp [newestAt, Region.covers]
  have hwindow : inWindow a = true ↔
      userStackTop - 16 * pageSize ≤ a.val ∧ a.val < userStackTop := by
    simp [inWindow, stackGrowthPages]
  unfold Reaches grants
  rw [← hwindow]
  cases hr : s.newestAt a with
  | none => simp [hnewest.1 hr]
  | some r =>
    have hsome : ∃ r ∈ s.regions, r.base.val ≤ a.val ∧ a.val < r.base.val + r.size := by
      by_contra hnone
      rw [hnewest.2 hnone] at hr
      cases hr
    simp [hsome]

end AddressSpace

/-! ## The decision -/

/-- Why a fault is refused, if it is. -/
def faultRefusal? (p : FramePool) (ram : Ram) (space? : Option AddressSpace) (code : Nat)
    (a : VirtualAddress) : Option Refusal :=
  if 2 < code then some .invalidFault
  else if code = 2 then some .permissionViolation
  else match space? with
    | none => some .badAddress
    | some s =>
      if ¬ s.Reaches a then some .badAddress
      else if p.freeFrames ram < s.table.need ram a then some .outOfMemory
      else none

theorem faultRefusal?_of_two_lt (hcode : 2 < code) :
    faultRefusal? p ram space? code a = some .invalidFault := if_pos hcode

theorem faultRefusal?_two : faultRefusal? p ram space? 2 a = some .permissionViolation := rfl

theorem faultRefusal?_none (hcode : code < 2) :
    faultRefusal? p ram none code a = some .badAddress := by
  simp [faultRefusal?, hcode.ne, Nat.lt_asymm hcode]

theorem faultRefusal?_some (hcode : code < 2) (s : AddressSpace) :
    faultRefusal? p ram (some s) code a =
      if ¬ s.Reaches a then some .badAddress
      else if p.freeFrames ram < s.table.need ram a then some .outOfMemory
      else none := by
  simp [faultRefusal?, hcode.ne, Nat.lt_asymm hcode]

/-- Each answer there is, and when it is given. -/
structure FaultAnswers (p : FramePool) (ram : Ram) (space? : Option AddressSpace) (code : Nat)
    (a : VirtualAddress) (refused : Refusal → Prop) (done : Prop) : Prop where
  invalidFault_iff : refused .invalidFault ↔ 2 < code
  /-- Whatever the space and the address. -/
  permissionViolation_iff : refused .permissionViolation ↔ code = 2
  badAddress_iff : refused .badAddress ↔ code < 2 ∧ ∀ s, space? = some s → ¬ s.Reaches a
  outOfMemory_iff : refused .outOfMemory ↔ code < 2 ∧
    ∃ s, space? = some s ∧ s.Reaches a ∧ p.freeFrames ram < s.table.need ram a
  done_iff : done ↔ code < 2 ∧
    ∃ s, space? = some s ∧ s.Reaches a ∧ s.table.need ram a ≤ p.freeFrames ram

theorem faultAnswers_refusal (p : FramePool) (ram : Ram) (space? : Option AddressSpace) (code : Nat)
    (a : VirtualAddress) : FaultAnswers p ram space? code a
      (fun cause => faultRefusal? p ram space? code a = some cause)
      (faultRefusal? p ram space? code a = none) := by
  rcases Nat.lt_trichotomy code 2 with hcode | rfl | hcode
  · have hnot : ¬ 2 < code := Nat.lt_asymm hcode
    cases space? with
    | none => constructor <;> simp [faultRefusal?_none hcode, hcode, hnot, hcode.ne]
    | some s =>
      rw [faultRefusal?_some hcode]
      by_cases hreach : s.Reaches a
      · rcases Nat.lt_or_ge (p.freeFrames ram) (s.table.need ram a) with hshort | hfits
        · constructor <;> simp [hcode, hnot, hcode.ne, hreach, hshort]
        · constructor <;> simp [hcode, hnot, hcode.ne, hreach, hfits]
      · constructor <;> simp [hcode, hnot, hcode.ne, hreach]
  · constructor <;> simp [faultRefusal?_two]
  · constructor <;> simp [faultRefusal?_of_two_lt hcode, hcode, hcode.ne', Nat.lt_asymm hcode]

/-- The answers that an outcome can be. -/
theorem FaultAnswers.of_meets {o : Outcome Refusal Kernel (Mmu τ)}
    (h : o.Meets (fun _ _ => faultRefusal? p ram space? code a = none)
      (fun cause _ => faultRefusal? p ram space? code a = some cause) never) :
    FaultAnswers p ram space? code a (fun cause => ∃ k', o = .refused cause k')
      (∃ mmu k', o = .done mmu k') := by
  have hanswers := faultAnswers_refusal p ram space? code a
  have hrefused (cause : Refusal) :
      (∃ k', o = .refused cause k') ↔ faultRefusal? p ram space? code a = some cause := by
    cases h with
    | done h => simp [h]
    | refused h => simp [h]
    | halted h => exact h.elim
  have hdone : (∃ mmu k', o = .done mmu k') ↔ faultRefusal? p ram space? code a = none := by
    cases h with
    | done h => simp [h]
    | refused h => simp [h]
    | halted h => exact h.elim
  simp only [hrefused, hdone]
  exact hanswers

/-! ## Servicing -/

variable [TlbDevice τ] {mmu : Mmu τ}

/-- Whatever the stages before the third refuse, is refused for the cause that is decided. -/
theorem turnsAway_faultRefusal (p : FramePool) (ram : Ram) (space? : Option AddressSpace) (code : Nat)
    (a : VirtualAddress) :
    TurnsAway k space? code a fun cause _ => faultRefusal? p ram space? code a = some cause where
  push _ _ _ h := h
  invalidFault hcode _ _ := faultRefusal?_of_two_lt hcode
  permissionViolation hcode _ _ := by
    subst hcode
    exact faultRefusal?_two
  badAddress hcode hplace _ _ := by
    cases space? with
    | none => exact faultRefusal?_none hcode
    | some s =>
      have hreach : ¬ s.Reaches a := by
        rw [AddressSpace.reaches_iff]
        rintro ⟨hzero, hgrants⟩
        exact (hplace s rfl).elim hzero hgrants
      rw [faultRefusal?_some hcode, if_pos hreach]

/-- A fault without an address space is refused for the cause that is decided. -/
theorem serviceFault_nowhere :
    ((serviceFault none code a mmu).run k).Meets (fun _ _ => False)
      (fun cause _ => faultRefusal? p ram none code a = some cause) never :=
  meets_serviceFault_none (turnsAway_faultRefusal p ram none code a) mmu

/-- A fault is refused for the cause that is decided. When there is none, its page is mapped on demand
as it is granted, and its entry is installed. -/
theorem serviceFault_supplies {s : AddressSpace} (hs : s.Sound) (ht : s.table.Held k p m rest)
    (code : Nat) (a : VirtualAddress) (mmu : Mmu τ) :
    ((serviceFault (some s) code a mmu).run k).Meets
      (fun mmu' k' => faultRefusal? p k.ram (some s) code a = none ∧
        ∃ writable e, s.grants a = some writable ∧
          s.table.Supplied p rest k m a writable e k' ∧ mmu' = mmu.install (.forPage a e))
      (fun cause _ => faultRefusal? p k.ram (some s) code a = some cause) never := by
  refine (meets_serviceFault_some hs (turnsAway_faultRefusal p k.ram (some s) code a)
    (P := fun writable e k' => s.table.Supplied p rest k m a writable e k' ∧
      faultRefusal? p k.ram (some s) code a = none)
    (fun _ _ _ ev h => ⟨h.1.push ev, h.2⟩) ?_ mmu).mono ?_ (fun _ _ hR => hR) fun _ hH => hH
  · intro hzero writable hgrants k' h hcode
    have hreach : s.Reaches a := AddressSpace.reaches_iff.2 ⟨hzero, by simp [hgrants]⟩
    have hrefusal : faultRefusal? p k.ram (some s) code a = _ := faultRefusal?_some hcode s
    rw [if_neg (not_not.2 hreach), ht.shows.need_eq a] at hrefusal
    refine ((h.held ht).mapOnDemand_supplies a writable).mono ?_ ?_ fun _ hH => hH
    · rintro e k'' ⟨hsupplied, hfits⟩
      rw [h.ram_eq] at hfits
      rw [if_neg (Nat.not_lt.2 hfits)] at hrefusal
      exact ⟨hsupplied.congr h.ram_eq (h.touches ∅), hrefusal⟩
    · rintro cause k'' ⟨rfl, hshort⟩
      rw [h.ram_eq] at hshort
      rw [hrefusal, if_pos hshort]
  · rintro mmu' k' ⟨writable, e, hgrants, ⟨hsupplied, hrefusal⟩, hmmu⟩
    exact ⟨hrefusal, writable, e, hgrants, hsupplied, hmmu⟩

end SoftPaging
