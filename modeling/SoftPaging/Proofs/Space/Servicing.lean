import Mathlib
import SoftPaging.Proofs.Space.Demand
import SoftPaging.Proofs.Space.Regions

/-!
# Servicing a fault

Of the four stages of a fault only the third does anything but write to the log. So what a fault meets
is what the third stage meets, and what the first two turn away (`meets_serviceFault_some`). A fault
that is done maps the page of its address and nothing else, and one that is refused, at whichever
stage, leaves every frame as it was that was not spare (`serviceFault_meets`).
-/

namespace SoftPaging

open Outcome

variable {k k' : Kernel} {p : FramePool} {live rest : List Block} {m : TableMap} {τ : Type}
  [TlbDevice τ]

/-- Nothing happened but that the log grew. -/
inductive Kernel.Logs (k : Kernel) : Kernel → Prop
  | refl : Logs k k
  | push {k' : Kernel} (h : Logs k k') (e : Event) : Logs k (k'.push e)

namespace Kernel.Logs

theorem ram_eq (h : k.Logs k') : k'.ram = k.ram := by
  induction h with
  | refl => rfl
  | push _ e ih => exact ih

theorem touches (h : k.Logs k') (F : Set Nat) : Kernel.Touches p F k k' := by
  induction h with
  | refl => exact Kernel.Touches.refl p F k
  | push _ e ih => exact ih.trans (Kernel.Touches.push p F _ e)

theorem holds (h : k.Logs k') (hk : k.Holds p live) : k'.Holds p live := by
  induction h with
  | refl => exact hk
  | push _ e ih => exact ih.push e

theorem held {t : PageTable} (h : k.Logs k') (ht : t.Held k p m rest) : t.Held k' p m rest := by
  induction h with
  | refl => exact ht
  | push _ e ih => exact ih.push e

end Kernel.Logs

/-- A stage of a fault meets what its body meets, if that still holds after one more line in the
log. -/
theorem Op.inStage_meets {α : Type} {x : Op α} {Q : α → Kernel → Prop} {R : Refusal → Kernel → Prop}
    {H : Halt → Prop} (code : Nat) (a : VirtualAddress) (stage : FaultStage)
    (hx : (x.run k).Meets Q R H) (hlog : ∀ cause k' e, R cause k' → R cause (k'.push e)) :
    ((Op.inStage code a stage x).run k).Meets Q R H :=
  Transition.Meets.onRefusal hx fun cause k' hR => .done (hlog cause k' _ hR)

/-- Loads and stores without a translation may be serviced, and nothing else. -/
theorem FaultKind.serviceable_meets (code : Nat) :
    ((FaultKind.serviceable code).run k).Meets (fun _ k' => k' = k ∧ code < 2)
      (fun cause k' => k' = k ∧ (2 < code ∧ cause = .invalidFault ∨
        code = 2 ∧ cause = .permissionViolation)) never := by
  unfold FaultKind.serviceable
  match code with
  | 0 => exact .done ⟨rfl, by decide⟩
  | 1 => exact .done ⟨rfl, by decide⟩
  | 2 => exact .refused ⟨rfl, .inr ⟨rfl, rfl⟩⟩
  | code + 3 => exact .refused ⟨rfl, .inl ⟨by omega, rfl⟩⟩

/-! ## The stages -/

/-- `R` is true of what the first two stages refuse, and stays true while the log grows. -/
structure TurnsAway (k : Kernel) (space? : Option AddressSpace) (code : Nat) (a : VirtualAddress)
    (R : Refusal → Kernel → Prop) : Prop where
  push : ∀ cause k' e, R cause k' → R cause (k'.push e)
  invalidFault : 2 < code → ∀ k', k.Logs k' → R .invalidFault k'
  permissionViolation : code = 2 → ∀ k', k.Logs k' → R .permissionViolation k'
  badAddress : code < 2 → (∀ s, space? = some s → a.val = 0 ∨ s.grants a = none) →
    ∀ k', k.Logs k' → R .badAddress k'

section Stages

variable {space? : Option AddressSpace} {code : Nat} {a : VirtualAddress}
  {R : Refusal → Kernel → Prop}

theorem TurnsAway.serviceable (h : TurnsAway k space? code a R) (hk : k.Logs k') :
    ((Op.inStage code a .kind (FaultKind.serviceable code)).run k').Meets
      (fun _ k'' => k.Logs k'' ∧ code < 2) R never := by
  refine Op.inStage_meets _ _ _ ((FaultKind.serviceable_meets code).mono ?_ ?_ fun _ hH => hH) h.push
  · rintro kind _ ⟨rfl, hcode⟩
    exact ⟨hk, hcode⟩
  · rintro cause _ ⟨rfl, ⟨hcode, rfl⟩ | ⟨hcode, rfl⟩⟩
    · exact h.invalidFault hcode _ hk
    · exact h.permissionViolation hcode _ hk

/-- A fault without an address space is refused by the first stage or by the second. -/
theorem meets_serviceFault_none (h : TurnsAway k none code a R) (mmu : Mmu τ) :
    ((serviceFault none code a mmu).run k).Meets (fun _ _ => False) R never := by
  unfold serviceFault
  refine Transition.Meets.bind (P := fun _ k' => k.Logs k') (.done (Kernel.Logs.refl.push _)) ?_
  intro _ k₁ h₁
  refine Transition.Meets.bind (h.serviceable h₁) ?_
  rintro kind k₂ ⟨h₂, hcode⟩
  refine Transition.Meets.bind (P := fun _ k' => k.Logs k') (.done (h₂.push _)) ?_
  intro _ k₃ h₃
  refine Transition.Meets.bind (P := fun _ _ => False) (Op.inStage_meets _ _ _ (.refused ?_) h.push)
    fun _ _ hfalse => hfalse.elim
  exact h.badAddress hcode (fun s hs => by cases hs) k₃ h₃

/-- A fault in an address space meets what the third stage meets, wherever that is come to. The other
stages only write to the log. -/
theorem meets_serviceFault_some {s : AddressSpace} (hs : s.Sound)
    {P : Bool → PageEntry → Kernel → Prop} (h : TurnsAway k (some s) code a R)
    (hpush : ∀ writable e k' ev, P writable e k' → P writable e (k'.push ev))
    (hmap : a.val ≠ 0 → ∀ writable, s.grants a = some writable → ∀ k', k.Logs k' → code < 2 →
      ((s.table.mapOnDemand a writable).run k').Meets (P writable) R never) (mmu : Mmu τ) :
    ((serviceFault (some s) code a mmu).run k).Meets
      (fun mmu' k' => ∃ writable e, s.grants a = some writable ∧ P writable e k' ∧
        mmu' = mmu.install (.forPage a e)) R never := by
  unfold serviceFault
  refine Transition.Meets.bind (P := fun _ k' => k.Logs k') (.done (Kernel.Logs.refl.push _)) ?_
  intro _ k₁ h₁
  refine Transition.Meets.bind (h.serviceable h₁) ?_
  rintro kind k₂ ⟨h₂, hcode⟩
  refine Transition.Meets.bind (P := fun _ k' => k.Logs k') (.done (h₂.push _)) ?_
  intro _ k₃ h₃
  refine Transition.Meets.bind
    (P := fun x k' => x.1 = s ∧ a.val ≠ 0 ∧ s.grants a = some x.2 ∧ k.Logs k')
      (Op.inStage_meets _ _ _ ?_ h.push) ?_
  · refine Transition.Meets.bind
      (P := fun writable k' => a.val ≠ 0 ∧ s.grants a = some writable ∧ k.Logs k')
        ?_ fun _ _ h => .done ⟨rfl, h⟩
    rw [hs.run_writableAt]
    split
    · next hzero =>
      refine .refused (h.badAddress hcode (fun s' hs' => ?_) k₃ h₃)
      exact .inl hzero
    · next hzero =>
      cases hgrants : s.grants a with
      | some writable => exact .done ⟨hzero, rfl, h₃⟩
      | none =>
        refine .refused (h.badAddress hcode (fun s' hs' => ?_) k₃ h₃)
        obtain rfl := Option.some.inj hs'
        exact .inr hgrants
  rintro ⟨s', writable⟩ k₄ ⟨hs', hzero, hgrants, h₄⟩
  obtain rfl : s' = s := hs'
  refine Transition.Meets.bind (P := fun _ k' => k.Logs k') (.done (h₄.push _)) ?_
  intro _ k₅ h₅
  refine Transition.Meets.bind
    (Op.inStage_meets _ _ _ (hmap hzero writable hgrants k₅ h₅ hcode) h.push) ?_
  intro e k₆ he
  exact .done ⟨writable, e, hgrants, hpush _ _ _ _ (hpush _ _ _ _ he), rfl⟩

end Stages

/-! ## What a fault leaves -/

/-- A fault without an address space is refused, and only the log tells of it. -/
theorem serviceFault_none (code : Nat) (a : VirtualAddress) (mmu : Mmu τ) :
    ((serviceFault none code a mmu).run k).Meets (fun _ _ => False) (fun _ k' => k.Logs k')
      never :=
  meets_serviceFault_none ⟨fun _ _ e h => h.push e, fun _ _ h => h, fun _ _ h => h,
    fun _ _ _ h => h⟩ mmu

/-- A fault in a space that shows `m` was refused: only frames that were spare were written to. -/
structure FaultRefused (p : FramePool) (s : AddressSpace) (m : TableMap) (rest : List Block)
    (k k' : Kernel) : Prop where
  held : s.table.Held k' p m rest
  touches : Kernel.Touches p (p.spare (s.table.blocks m ++ rest)) k k'

theorem FaultRefused.push {s : AddressSpace} (h : FaultRefused p s m rest k k') (e : Event) :
    FaultRefused p s m rest k (k'.push e) :=
  ⟨h.held.push e, h.touches.trans (Kernel.Touches.push p _ k' e)⟩

/-- A fault maps the page of its address as it is granted there, and installs its entry, or it leaves
alone every frame that was not spare. -/
theorem serviceFault_meets {s : AddressSpace} (hs : s.Sound) (ht : s.table.Held k p m rest)
    (code : Nat) (a : VirtualAddress) (mmu : Mmu τ) :
    ((serviceFault (some s) code a mmu).run k).Meets
      (fun mmu' k' => ∃ writable e, s.grants a = some writable ∧
        s.table.MapsPage p rest k m a.directoryIndex a.tableIndex writable e k' ∧
          mmu' = mmu.install (.forPage a e))
      (fun _ k' => FaultRefused p s m rest k k') never := by
  have hquiet (k' : Kernel) (h : k.Logs k') : FaultRefused p s m rest k k' :=
    ⟨h.held ht, h.touches _⟩
  refine meets_serviceFault_some hs ⟨fun _ _ e h => h.push e, fun _ => hquiet, fun _ => hquiet,
    fun _ _ => hquiet⟩ (fun _ _ _ _ h => h.push _) ?_ mmu
  intro _ writable _ k' h _
  refine ((h.held ht).mapOnDemand_maps a writable).mono ?_ ?_ fun _ hH => hH
  · exact fun e k'' hmaps => hmaps.congr h.ram_eq (h.touches ∅)
  · rintro cause k'' ⟨-, hheld, htouches⟩
    exact ⟨hheld, (h.touches _).trans htouches⟩

end SoftPaging
