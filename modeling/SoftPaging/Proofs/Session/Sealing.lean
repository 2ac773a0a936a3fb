import Mathlib
import SoftPaging.Proofs.Session.Granting
import SoftPaging.Proofs.Session.Others
import SoftPaging.Proofs.Space.Sealing

/-!
# What the end of a load does

When the load of a space ends, its regions have the permissions that they were declared with, and a
page is without write permission if the region around it that was defined last was declared so. All
other entries stay, and so do the frames of the pages, their bytes and the records. The TLB holds
nothing but invalid entries then, whatever it held before (`endLoad_seals`).
-/

namespace SoftPaging

open Outcome

namespace Session

variable {p : FramePool} {s s₀ : Session} {trace : List (Request × Bool)} {i : Nat}
  {sp : AddressSpace}

/-- The load of the space `sp` was ended, and this is all that is different. -/
structure EndsLoad (p : FramePool) (s : Session) (i : Nat) (sp : AddressSpace) (s' : Session) :
    Prop where
  object_eq : s'.object i = some (.space
    { sp with regions := sp.regions.map fun r => { r with permissions := r.declared } })
  others : s.ChangesOnly i s'
  /-- A page that is locked loses write permission and keeps the rest of its entry. -/
  locked : ∀ a, sp.Locks a → (sp.table.entryIn s'.kernel.ram a).bits =
    (sp.table.entryIn s.kernel.ram a).bits &&& ~~~PageFlags.dirty.bits
  unlocked : ∀ a, ¬ sp.Locks a →
    sp.table.entryIn s'.kernel.ram a = sp.table.entryIn s.kernel.ram a
  isValid_eq : ∀ a, (sp.table.entryIn s'.kernel.ram a).isValid =
    (sp.table.entryIn s.kernel.ram a).isValid
  frame?_eq : ∀ a, (sp.table.entryIn s'.kernel.ram a).frame? =
    (sp.table.entryIn s.kernel.ram a).frame?
  slot_eq : ∀ n, sp.table.slotIn s'.kernel.ram n = sp.table.slotIn s.kernel.ram n
  /-- The bytes of the pages. -/
  byte_eq : ∀ a f, (sp.table.entryIn s.kernel.ram a).frame? = some f →
    ∀ o < pageSize, s'.kernel.ram.byte (f.val + o) = s.kernel.ram.byte (f.val + o)
  record_eq : ∀ f < p.total, p.record s'.kernel.ram f = p.record s.kernel.ram f
  invalid : ∀ slot : Fin tlbSlots, s'.mmu.tlb.slots.get slot = .invalid slot.val
  probe_eq : ∀ a, s'.mmu.tlb.probe a = none
  translate_eq : ∀ a, s'.mmu.tlb.translate a = none
  enabled_eq : s'.mmu.interrupts.enabled = s.mmu.interrupts.enabled

theorem Sound.endsLoad (h : s.Sound p) (ho : s.object i = some (.space sp)) :
    ∃ s', (perform (.endLoad i)).run s = .done () s' ∧ s.EndsLoad p i sp s' := by
  have hheld := h.held ho (t := sp.table) rfl
  have hspace : sp.Sound := (h.take ho).2.1
  obtain ⟨k', hend, hheld', -, htouches⟩ := AddressSpace.endLoad_done hspace hheld s.mmu
  have hrun : (perform (.endLoad i)).run s = _ := run_onSpace ho _
  rw [run_op_of_done hend, andThen_done] at hrun
  have hentry (a : VirtualAddress) : sp.table.entryIn k'.ram a =
      if sp.restored.seals a then (sp.table.entryIn s.kernel.ram a).writeProtect
      else sp.table.entryIn s.kernel.ram a :=
    hspace.restored.entryIn_sealed hheld.shows hheld'.shows a
  have hinvalid (slot : Fin tlbSlots) : s.mmu.flush.tlb.slots.get slot = .invalid slot.val :=
    s.mmu.tlb.get_slots_flush false slot
  refine ⟨_, hrun, ?_, ?_, ?_, ?_, ?_, ?_, ?_, ?_, ?_, hinvalid, ?_, ?_, rfl⟩
  · rw [object_mmu, object_put_self (s := s.withKernel k') ho]
    rfl
  · refine h.changesOnly rfl (fun j hj => ?_) (hheld.sameBlocks htouches Set.subset_union_left)
    rw [object_mmu, object_put_of_ne (s := s.withKernel k') (Ne.symm hj)]
    rfl
  · intro a hlocks
    show (sp.table.entryIn k'.ram a).bits = _
    rw [hentry, if_pos (AddressSpace.seals_restored_iff.2 hlocks)]
    rfl
  · intro a hlocks
    show sp.table.entryIn k'.ram a = _
    rw [hentry, if_neg (mt AddressSpace.seals_restored_iff.1 hlocks)]
  · intro a
    show (sp.table.entryIn k'.ram a).isValid = _
    rw [hentry]
    split <;> simp
  · intro a
    show (sp.table.entryIn k'.ram a).frame? = _
    rw [hentry]
    split <;> simp
  · intro n
    show sp.table.slotIn k'.ram n = _
    rw [hheld.shows.slotIn_eq, hheld'.shows.slotIn_eq]
    exact Leaf.map_table_congr (TableMap.frame_protectAll _ _ n)
  · intro a f hf o hlt
    obtain ⟨pg, hpg, rfl⟩ := hheld.page_of_frame? hf
    rw [val_frameAt (hheld.holds.frame_lt (hheld.page_mem hpg))]
    refine (hheld.page_sameFrame hpg htouches Set.subset_union_left).byte ?_ ?_
    · omega
    · omega
  · intro f hf
    have hperm := sp.table.blocks_protectAll (sp.table.mapIn s.kernel.ram)
      ((sp.restored.sealedPages s.kernel.ram).map Prod.fst)
    exact hheld.holds.represents.record_eq
      (hheld'.holds.perm (hperm.append_right _)).represents hf
  · exact fun a => TlbBuffer.probe_of_invalid hinvalid a
  · exact fun a => TlbBuffer.translate_of_invalid hinvalid a

/-- However a session was come to, with whatever regions, pages and TLB, the end of a load does this
to a space. -/
theorem endLoad_seals (hboot : s₀.Booted p)
    (hruns : Runs (fun s r => r.Permitted p s) s₀ trace s) (ho : s.object i = some (.space sp)) :
    ∃ s', (perform (.endLoad i)).run s = .done () s' ∧ s.EndsLoad p i sp s' :=
  (hruns.sound (fun _ _ hr => hr) hboot.sound).endsLoad ho

/-! ## A small machine -/

/-- What a client does to define the text of its program, begin to load it and touch it. -/
def touchesText : List (Request × Bool) :=
  definesText ++ [(.beginLoad 0, true)] ++ [(.fault (some 0) 0 textStart, true)]

/-- The page of a text that is touched while it is loaded may be written to, although the text may
not. -/
theorem exists_loaded_text : ∃ (s₀ s : Session) (sp : AddressSpace), s₀.Booted (pages 8) ∧
    Runs (fun s r => r.Permitted (pages 8) s) s₀ touchesText s ∧ s.object 0 = some (.space sp) ∧
      sp.Locks textStart ∧ (sp.table.entryIn s.kernel.ram textStart).isDirty = true := by
  obtain ⟨s₀, s₁, s, -, sp, hboot, hmade, -, -, hadded, halone, hregions, hvacant⟩ := exists_text ⟨true, false, true⟩
  have hruns : Runs (fun s r => r.Permitted (pages 8) s) s₀ definesText s :=
    .granted (.granted .start trivial hmade) trivial hadded
  have hbegun := hruns.granted (r := .beginLoad 0) trivial (run_beginLoad halone.object_eq)
  have hsound := hbegun.sound (fun _ _ hr => hr) hboot.sound
  have hloading : sp.beginLoad.regions = [textRegion.allowWrites] :=
    congrArg (List.map Region.allowWrites) hregions
  have hlocks : sp.beginLoad.Locks textStart :=
    ⟨textRegion.allowWrites, ⟨[], [], hloading, by decide, by simp⟩, rfl⟩
  have hgrants : sp.beginLoad.grants textStart = some true :=
    AddressSpace.grants_of_last (congrArg List.getLast? hloading) (by decide)
  have hinvalid : (sp.table.entryIn s.kernel.ram textStart).isValid = false := by
    have hsound₀ := hruns.sound (fun _ _ hr => hr) hboot.sound
    rw [(hsound₀.held halone.object_eq (t := sp.table) rfl).shows.entryIn_eq, hvacant]
    rfl
  have halone' := halone.put sp.beginLoad
  obtain ⟨s', hfault, -, hloaded, -⟩ := halone'.fault_done hsound (by decide) hvacant
    (a := textStart) (AddressSpace.reaches_iff.2 ⟨by decide, hgrants ▸ Option.some_ne_none _⟩)
  refine ⟨s₀, s', sp.beginLoad, hboot, hbegun.granted (r := .fault (some 0) 0 textStart) trivial hfault,
    hloaded.object_eq, hlocks, ?_⟩
  refine (hsound.grants halone'.object_eq hfault).loading hinvalid fun r hr => ?_
  rw [hloading, List.mem_singleton] at hr
  rw [hr]
  rfl

/-- When the load has ended that page is read-only. -/
theorem eight_pages_sealed : ∃ (s₀ s s' : Session) (sp : AddressSpace), s₀.Booted (pages 8) ∧
    Runs (fun s r => r.Permitted (pages 8) s) s₀ touchesText s ∧ s.object 0 = some (.space sp) ∧
      (sp.table.entryIn s.kernel.ram textStart).isDirty = true ∧
        (perform (.endLoad 0)).run s = .done () s' ∧ s.EndsLoad (pages 8) 0 sp s' ∧
          (sp.table.entryIn s'.kernel.ram textStart).isDirty = false := by
  obtain ⟨s₀, s, sp, hboot, hruns, ho, hlocks, hdirty⟩ := exists_loaded_text
  obtain ⟨s', hrun, hends⟩ := endLoad_seals hboot hruns ho
  refine ⟨s₀, s, s', sp, hboot, hruns, ho, hdirty, hrun, hends, ?_⟩
  have hsealed : sp.table.entryIn s'.kernel.ram textStart =
      (sp.table.entryIn s.kernel.ram textStart).writeProtect :=
    congrArg PageEntry.mk (hends.locked textStart hlocks)
  simp [hsealed]

end Session

end SoftPaging
