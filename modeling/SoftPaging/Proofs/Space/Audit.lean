import Mathlib
import SoftPaging.Proofs.Paging.Audit
import SoftPaging.Proofs.Space.Cloning
import SoftPaging.Proofs.Space.Loading
import SoftPaging.Proofs.Space.Servicing

/-!
# Address spaces account for their frames

What an operation on an address space does to frames, it does through its page table. What it
writes to the log itself moves no frame. The two that clean up when memory runs out, copying and
servicing a fault, account for what they give back as for what they took.
-/

namespace SoftPaging

open Outcome FramePool

variable {p : FramePool} {k : Kernel} {rest : List Block} {m : TableMap} {τ : Type} [TlbDevice τ]

namespace AddressSpace

variable {s : AddressSpace}

theorem audits_create : p.Audits create fun _ => True :=
  PageTable.audits_create.bind fun _ _ => (audits_record p id).bind fun _ _ => .pure trivial

theorem audits_addRegion (s : AddressSpace) (start : VirtualAddress) (size : Nat)
    (permissions : Permissions) : p.Audits (s.addRegion start size permissions) fun _ => True := by
  refine (Audits.lift _).bind fun base _ => ?_
  split
  · exact (audits_record p id).bind fun _ _ => .refuse _
  · exact (Audits.lift _).bind fun _ _ => (Audits.lift _).bind fun _ _ =>
      (audits_record p id).bind fun _ _ => (Audits.lift _).bind fun _ _ => .pure trivial

theorem audited_endLoad (hs : s.Sound) (h : s.table.Held k p m rest) (mmu : Mmu τ) :
    k.Audited p (fun _ _ => True) ((s.endLoad mmu).run k) := by
  have hfilter := hs.run_filterM k.ram k
  have hloop := Kernel.Audited.forM (p := p)
    (f := fun x : VirtualAddress × PageEntry => (discard (s.table.writeProtect x.1) : Op PUnit))
    (I := fun _ k => ∃ m, s.table.Held k p m rest) ?_ (s.restored.sealedPages k.ram) ⟨m, h⟩
  · unfold endLoad
    rw [Transition.run_bind, h.run_mappings, andThen_done, Transition.run_bind, hfilter,
      andThen_done]
    refine hloop.bind ?_
    rintro _ k₁ ⟨m₁, h₁⟩
    split
    · exact .done ⟨.note .refl id, trivial⟩
    · exact .done ⟨.refl, trivial⟩
  · rintro ⟨a, e⟩ xs k₁ ⟨m₁, h₁⟩
    obtain ⟨k₂, hrun, hheld, -⟩ := h₁.writeProtect_held a
    exact Kernel.Audited.discard ((h₁.audited_writeProtect a).of_done hrun ⟨_, hheld⟩)

theorem audited_destroy (h : s.table.Held k p m rest) :
    k.Audited p (fun _ _ => True) (s.destroy.run k) := by
  unfold destroy
  rw [Transition.run_bind, h.run_residentPages, andThen_done, Transition.run_bind, Op.run_record,
    andThen_done]
  exact (h.push _).audited_tearDown.after (.note .refl id)

/-- A copy that runs out of memory accounts for the frames that it gives back. -/
theorem audited_copy (h : s.table.Held k p m rest) :
    k.Audited p (fun _ _ => True) (s.copy.run k) := by
  have hcreate : k.Audited p (fun fresh k₁ => fresh.table.Held k₁ p .vacant
      (s.table.blocks m ++ rest) ∧ s.table.Shows k₁.ram m) (create.run k) := by
    refine (audits_create k _ h.holds.toLends).and ((create_vacant h.holds).mono ?_
      (fun _ _ hR => hR) fun _ hH => hH)
    rintro fresh k₁ ⟨-, hheld, hsame⟩
    exact ⟨hheld, h.shows.of_sameBlocks hsame⟩
  refine hcreate.bind ?_
  rintro fresh k₁ ⟨hfresh, hsource⟩
  have hcopyTo := PageTable.run_copyTo hfresh hsource
  refine Kernel.Audited.bind (Q := fun _ k₂ => ∃ m₁, fresh.table.Held k₂ p m₁
    (s.table.blocks m ++ rest)) (((PageTable.audited_copyTo hfresh hsource).and
      (hcopyTo.mono ?_ (fun _ _ hR => hR) fun _ hH => hH)).onRefusal ?_) ?_
  · rintro _ k₂ ⟨m₁, hcopying⟩
    exact ⟨m₁, hcopying.held⟩
  · rintro cause k₂ hrun
    obtain ⟨-, V, S, m₁, hcopying, -⟩ := hcopyTo.of_refused hrun
    simp only [Transition.run_bind, hcopying.held.run_residentPages, andThen_done,
      (hcopying.source_shows hfresh hsource).run_residentPages, Op.run_record]
    exact (audited_destroy (s := { s with table := fresh.table }) (hcopying.held.push _)).after
      (.note .refl id)
  · rintro _ k₂ ⟨m₁, hheld⟩
    simp only [Transition.run_bind, hheld.run_residentPages, andThen_done, Op.run_record,
      Transition.run_pure]
    exact .done ⟨.note .refl id, trivial⟩

end AddressSpace

/-! ## Servicing a fault -/

namespace PageTable.Held

variable {t : PageTable}

/-- A second-level table that is given back because there is no frame for the page is accounted for
twice. -/
theorem audited_mapOnDemand (h : t.Held k p m rest) (a : VirtualAddress) (writable : Bool) :
    k.Audited p (fun _ _ => True) ((t.mapOnDemand a writable).run k) := by
  have hopen := (h.audited_openSlot a.directoryIndex.val).and (h.openSlot_becomes _)
  refine hopen.bind ?_
  rintro created k₁ ⟨⟨m₁, h₁, -⟩, -⟩
  refine (h₁.audited_mapPage _ _ writable).onRefusal fun cause k₂ hrun => ?_
  obtain ⟨-, rfl⟩ := (h₁.mapPage_becomes _ _ writable).of_refused hrun
  split
  · exact (h₁.push _).audited_closeSlot _
  · exact .done ⟨.refl, trivial⟩

end PageTable.Held

/-- A stage of a fault is accounted for as its body is. -/
theorem Op.audited_inStage {α : Type} {x : Op α} {Q : α → Kernel → Prop} (code : Nat)
    (a : VirtualAddress) (stage : FaultStage) (hx : k.Audited p Q (x.run k)) :
    k.Audited p Q ((Op.inStage code a stage x).run k) :=
  hx.onRefusal fun _ _ _ => .done ⟨.note .refl id, trivial⟩

theorem FaultKind.audited_serviceable (code : Nat) :
    k.Audited p (fun _ k' => k' = k) ((FaultKind.serviceable code).run k) := by
  refine (FaultKind.serviceable_meets code).mono ?_ ?_ fun _ _ => trivial
  · rintro _ _ ⟨rfl, -⟩
    exact ⟨.refl, rfl⟩
  · rintro _ _ ⟨rfl, -⟩
    exact .refl

/-- Only the third stage of a fault does anything but write to the log. -/
theorem audited_serviceFault {s? : Option AddressSpace}
    (h : ∀ s, s? = some s → s.Sound ∧ ∃ m rest, s.table.Held k p m rest) (code : Nat)
    (a : VirtualAddress) (mmu : Mmu τ) :
    k.Audited p (fun _ _ => True) ((serviceFault s? code a mmu).run k) := by
  have hlog {k : Kernel} (h : ∀ s, s? = some s → s.Sound ∧ ∃ m rest, s.table.Held k p m rest)
      {e : Event} (he : ¬ e.MovesFrames) : k.Audited p (fun _ k' => ∀ s, s? = some s →
        s.Sound ∧ ∃ m rest, s.table.Held k' p m rest) ((Op.record e).run k) := by
    refine .done ⟨.note .refl he, fun s hs => ?_⟩
    obtain ⟨hsound, m, rest, hheld⟩ := h s hs
    exact ⟨hsound, m, rest, hheld.push e⟩
  unfold serviceFault
  refine (hlog h id).bind fun _ k₁ h₁ => ?_
  refine (Op.audited_inStage _ _ _ (FaultKind.audited_serviceable code)).bind ?_
  rintro kind _ rfl
  refine (hlog h₁ id).bind fun _ k₂ h₂ => ?_
  refine (Op.audited_inStage (Q := fun x k' => s? = some x.1 ∧ k' = k₂) _ _ _ ?_).bind ?_
  · cases s? with
    | none => exact .refused .refl
    | some s =>
      change k₂.Audited p _ ((s.writableAt a >>= fun writable => pure (s, writable)).run k₂)
      rw [Transition.run_bind, (h₂ s rfl).1.run_writableAt]
      split
      · exact .refused .refl
      · split
        · exact .done ⟨.refl, rfl, rfl⟩
        · exact .refused .refl
  rintro ⟨s, writable⟩ _ ⟨hs, rfl⟩
  refine (hlog h₂ id).bind fun _ k₃ h₃ => ?_
  obtain ⟨-, m, rest, hheld⟩ := h₃ s hs
  refine (Op.audited_inStage _ _ _ (hheld.audited_mapOnDemand a writable)).bind fun e k₄ _ => ?_
  exact .done ⟨.note (.note .refl id) id, trivial⟩

end SoftPaging
