import Mathlib
import SoftPaging.Space.Fault
import SoftPaging.Proofs.Paging.Becomes

/-!
# Mapping a page on demand

The page table part of a fault. When it is done, the page of the address is resident, and filled with
zeros unless it was before. When memory runs out, nothing is left of the attempt: a second-level table
that was opened for it is given back, and its slot, which was the word zero before, is the word zero
again. So the only frames with other bytes than before are spare ones.
-/

namespace SoftPaging

open Outcome

variable {t : PageTable} {k k' : Kernel} {p : FramePool} {m : TableMap} {rest : List Block}
  {i : Fin directorySlots} {f : Nat}

namespace PageTable

/-- Filling a slot that was empty and emptying it again leaves every byte as it was. -/
theorem byte_setSlotIn_none {ram : Ram} (h : t.slotIn ram i = none)
    (hsize : t.directory.val + pageSize ≤ ram.size) (leaf? : Option EntryTable) (j : Nat) :
    (t.setSlotIn (t.setSlotIn ram i leaf?) i none).byte j = ram.byte j := by
  have hi : t.slotAddress i + 4 ≤ ram.size := by
    have := i.isLt
    simp only [slotAddress, directorySlots, pageSize] at *
    omega
  have hzero : ram.word (t.slotAddress i) = 0 := by
    by_contra hne
    rw [slotIn, if_neg hne] at h
    cases h
  unfold setSlotIn
  by_cases hj : t.slotAddress i ≤ j ∧ j < t.slotAddress i + 4
  · refine Ram.byte_eq_of_word_eq ?_ hj.1 hj.2
    rw [Ram.word_storeWord_self _ _ (by rw [Ram.size_storeWord]; exact hi), hzero]
    rfl
  · have hout : j < t.slotAddress i ∨ t.slotAddress i + 4 ≤ j := by omega
    rw [Ram.byte_storeWord_of_disjoint _ _ hout, Ram.byte_storeWord_of_disjoint _ _ hout]

namespace Held

/-- Opening a slot for a page that does not fit and closing it again touches the frame of the
second-level table only. -/
theorem openSlot_closeSlot (h : t.Held k p m rest) (hi : m i = none)
    (hf : IsLeast (p.spare (t.blocks m ++ rest)) f) (e : Event) :
    ∃ k', (t.closeSlot i.val).run ((t.afterOpenSlot p i f k).push e) = .done () k' ∧
      t.Held k' p m rest ∧ Kernel.Touches p {f} k k' := by
  have hopen := (h.openSlot hi hf).push e
  have hslot : m.setSlot i (some (.vacant f)) i = some (.vacant f) := TableMap.setSlot_self ..
  obtain ⟨k', hrun, hheld, hback⟩ := hopen.closeSlot hslot
  rw [TableMap.setSlot_setSlot, m.setSlot_eq_self hi] at hheld
  have hcleared := Kernel.Touches.lendCleared p k hf.1.2.1 (Set.mem_singleton f)
  have hlent := h.lendCleared hf
  have hempty : t.slotIn (k.lendCleared p f).ram i = none := by rw [hlent.shows.slotIn_eq i, hi]; rfl
  have hsize : t.directory.val + pageSize ≤ (k.lendCleared p f).ram.size :=
    h.shows.directory_val ▸ hlent.holds.frame_le hlent.frame_mem
  have hundone : Kernel.Touches p {f} (k.lendCleared p f)
      (((t.afterOpenSlot p i f k).push e).mapRam fun ram => t.setSlotIn ram i none) := by
    refine ⟨?_, ?_, fun j _ _ => ?_⟩
    · unfold afterOpenSlot
      rw [Kernel.directMap?_mapRam, Kernel.directMap?_push, Kernel.directMap?_mapRam,
        Kernel.directMap?_push]
    · rw [Kernel.ram_mapRam, Kernel.ram_push]
      unfold afterOpenSlot setSlotIn
      rw [Kernel.ram_mapRam, Ram.size_storeWord, Ram.size_storeWord, Kernel.ram_push]
    · rw [Kernel.ram_mapRam, Kernel.ram_push]
      unfold afterOpenSlot
      rw [Kernel.ram_mapRam, Kernel.ram_push]
      exact byte_setSlotIn_none hempty hsize _ j
  exact ⟨k', hrun, hheld, (hcleared.trans hundone).trans hback⟩

/-- Mapping the page of an address, with the second-level table it needs. -/
theorem mapOnDemand_maps (h : t.Held k p m rest) (a : VirtualAddress) (writable : Bool) :
    ((t.mapOnDemand a writable).run k).Meets
      (fun e k' => t.MapsPage p rest k m a.directoryIndex a.tableIndex writable e k')
      (fun cause k' => cause = .outOfMemory ∧ t.Held k' p m rest ∧
        Kernel.Touches p (p.spare (t.blocks m ++ rest)) k k') never := by
  unfold mapOnDemand
  cases hl : m a.directoryIndex with
  | some l =>
    rw [Transition.run_bind, h.run_openSlot_of_open hl, andThen_done]
    refine Transition.Meets.onRefusal (h.mapPage_maps_of_open hl a.tableIndex writable) ?_
    rintro _ _ ⟨rfl, rfl, -⟩
    exact .done ⟨rfl, h.push _, Kernel.Touches.push p _ k _⟩
  | none =>
    rcases p.spare_cases (t.blocks m ++ rest) with hnone | ⟨f, hf⟩
    · rw [Transition.run_bind, h.run_openSlot_exhausted hl hnone]
      exact .refused ⟨rfl, h.push _, Kernel.Touches.push p _ k _⟩
    · have hheld := h.openSlot hl hf
      have hslot : m.setSlot a.directoryIndex (some (.vacant f)) a.directoryIndex =
          some (.vacant f) := TableMap.setSlot_self ..
      have hopen := (h.openSlot_becomes a.directoryIndex.val).of_done (h.run_openSlot hl hf)
      rw [Transition.run_bind, h.run_openSlot hl hf, andThen_done]
      refine Transition.Meets.onRefusal
        ((hheld.mapPage_maps_of_open hslot a.tableIndex writable).mono ?_ (fun _ _ hR => hR)
          fun _ hH => hH) ?_
      · intro e k' hmaps
        refine ⟨hopen.1.trans fun m' hheld' himage => ?_,
          hmaps.maps.congr (fun i' hne => m.setSlot_of_ne _ hne) (m.page_setSlot_vacant hl f),
          hmaps.entry_eq, hopen.2.trans (hmaps.confined.mono (Set.union_subset ?_ ?_))⟩
        · obtain rfl := hheld'.shows.unique hheld.shows
          rw [← himage]
          exact hmaps.becomes
        · apply (t.skeleton_setSlot_subset m _ _).trans
          exact Set.insert_subset (.inr hf.1) Set.subset_union_left
        · exact (t.spare_setSlot_subset p rest hl _).trans Set.subset_union_right
      · rintro _ _ ⟨rfl, rfl, -⟩
        obtain ⟨k', hrun, hback, htouches⟩ := h.openSlot_closeSlot hl hf (.noRun 1)
        rw [if_pos rfl, hrun]
        exact .done ⟨rfl, hback, htouches.mono (Set.singleton_subset_iff.2 hf.1)⟩

end Held

end PageTable

end SoftPaging
