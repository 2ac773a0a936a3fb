import Mathlib
import SoftPaging.Proofs.Session.Privacy

/-!
# A fault that is refused

A fault may be refused at any of its stages, the last of them after a second-level table was taken,
filled with zeros and linked. Whichever it is, nothing is left of the attempt but lines in the log:
the frame records, the tables, the objects, the MMU, and every byte of a frame that was not free are
what they were (`refused_fault_unchanged`).
-/

namespace SoftPaging

open Outcome

namespace Session

variable {p : FramePool} {s s' s₀ : Session} {trace : List (Request × Bool)} {k' : Kernel}

/-- Nothing of a session is different but its log and the bytes of frames that were free. -/
structure Unchanged (p : FramePool) (s s' : Session) : Prop where
  record_eq : ∀ i < p.total, p.record s'.kernel.ram i = p.record s.kernel.ram i
  byte_eq : ∀ j, j / pageSize < p.reserved ∨
    (j / pageSize < p.total ∧ (p.record s.kernel.ram (j / pageSize)).isAllocated = true) →
      s'.kernel.ram.byte j = s.kernel.ram.byte j
  slot_eq : ∀ o t, some o ∈ s.objects → o.table? = some t → ∀ i,
    t.slotIn s'.kernel.ram i = t.slotIn s.kernel.ram i
  entry_eq : ∀ o t, some o ∈ s.objects → o.table? = some t → ∀ i leaf,
    t.slotIn s.kernel.ram i = some leaf →
      ∀ j, leaf.entryIn s'.kernel.ram j = leaf.entryIn s.kernel.ram j
  objects_eq : s'.objects = s.objects
  blocks_eq : s'.blocks = s.blocks
  mmu_eq : s'.mmu = s.mmu
  directMap_eq : s'.kernel.directMap? = s.kernel.directMap?
  pool_eq : s'.kernel.pool? = s.kernel.pool?

theorem Unchanged.entryIn_eq {o : Object} {t : PageTable} (h : s.Unchanged p s')
    (ho : some o ∈ s.objects) (ht : o.table? = some t) (a : VirtualAddress) :
    t.entryIn s'.kernel.ram a = t.entryIn s.kernel.ram a := by
  unfold PageTable.entryIn
  rw [h.slot_eq o t ho ht]
  cases hleaf : t.slotIn s.kernel.ram a.directoryIndex with
  | none => rfl
  | some leaf => exact h.entry_eq o t ho ht _ leaf hleaf _

theorem Unchanged.mapIn_eq {o : Object} {t : PageTable} (h : s.Unchanged p s')
    (ho : some o ∈ s.objects) (ht : o.table? = some t) :
    t.mapIn s'.kernel.ram = t.mapIn s.kernel.ram := by
  funext i
  unfold PageTable.mapIn
  rw [h.slot_eq o t ho ht]
  cases hleaf : t.slotIn s.kernel.ram i with
  | none => rfl
  | some leaf =>
    have hentries (j : Fin tableEntries) :
        (leaf.entryIn s'.kernel.ram j).page? = (leaf.entryIn s.kernel.ram j).page? :=
      congrArg _ (h.entry_eq o t ho ht i leaf hleaf j)
    exact congrArg some (Leaf.ext rfl (funext hentries))

/-- The page tables show what they showed when no frame that is owned was written to. -/
theorem Sound.shows_of_sameBlocks {ram : Ram} {o : Object} {t : PageTable} (h : s.Sound p)
    (hsame : s.kernel.ram.SameBlocks ram s.owned) (ho : some o ∈ s.objects)
    (ht : o.table? = some t) : t.Shows ram (t.mapIn s.kernel.ram) := by
  refine ((h.good o ho).shows ht).congr fun f hf => hsame f (mem_owned_of_object ?_)
  refine mem_objectBlocks.2 ⟨o, ho, ?_⟩
  rw [Object.blocksIn_of_table? ht]
  exact t.skeleton_subset _ hf

/-- Writing to spare frames, with the same blocks handed out afterwards, changes nothing. -/
theorem Sound.unchanged (h : s.Sound p) (hk : k'.Holds p s.owned)
    (htouches : Kernel.Touches p (p.spare s.owned) s.kernel k') :
    s.Unchanged p (s.withKernel k') := by
  have hholds := h.holds_owned
  have hrecord : ∀ i < p.total, p.record k'.ram i = p.record s.kernel.ram i :=
    fun i hi => hholds.represents.record_eq hk.represents hi
  have hsame := hholds.sameBlocks_of_spare htouches
  have hshows {o : Object} {t : PageTable} (ho : some o ∈ s.objects) (ht : o.table? = some t) :
      t.Shows k'.ram (t.mapIn s.kernel.ram) := h.shows_of_sameBlocks hsame ho ht
  refine ⟨hrecord, fun j hj => ?_, fun o t ho ht i => ?_, fun o t ho ht i leaf hleaf j => ?_,
    rfl, rfl, rfl, htouches.directMap_eq, ?_⟩
  · by_cases hj' : p.IsRecord j
    · -- a byte of the records is itself a record
      obtain ⟨hlow, hhigh⟩ := hj'
      have hbits := congrArg FrameRecord.bits (hrecord (j - p.records.val) (by omega))
      unfold FramePool.record at hbits
      rwa [Nat.add_sub_cancel' hlow] at hbits
    · refine htouches.byte_eq j (fun hspare => ?_) hj'
      rcases hj with hlow | ⟨hlt, hallocated⟩
      · exact absurd hspare.1 (Nat.not_le.2 hlow)
      · rcases (hholds.represents.allocated_iff _ hlt).1 hallocated with hlow | hlive
        · exact absurd hspare.1 (Nat.not_le.2 hlow)
        · exact hspare.2.2 hlive
  · exact ((hshows ho ht).slotIn_eq i).trans (((h.good o ho).shows ht).slotIn_eq i).symm
  · have hbefore := (h.good o ho).shows ht
    rw [hbefore.slotIn_eq i] at hleaf
    obtain ⟨l, hl, rfl⟩ := Option.map_eq_some_iff.1 hleaf
    exact (((hshows ho ht).leaf_shows i l hl).entryIn_eq j).trans
      ((hbefore.leaf_shows i l hl).entryIn_eq j).symm
  · exact hk.installed.trans hholds.installed.symm

/-- A fault in a space maps the page of its address as it is granted there and installs its entry, or
changes nothing. -/
theorem Sound.faultAt_meets {sp : AddressSpace} {i : Nat} (h : s.Sound p)
    (ho : s.object i = some (.space sp)) (code : Nat) (a : VirtualAddress) :
    ((perform (.fault (some i) code a)).run s).Meets
      (fun _ s' => ∃ k' writable e,
        s' = { s.withKernel k' with mmu := s.mmu.install (.forPage a e) } ∧
          sp.grants a = some writable ∧
            sp.table.MapsPage p (s.put i none).owned s.kernel (sp.table.mapIn s.kernel.ram)
              a.directoryIndex a.tableIndex writable e k')
      (fun _ s' => s.Unchanged p s') never := by
  have hheld : sp.table.Held s.kernel p (sp.table.mapIn s.kernel.ram) (s.put i none).owned :=
    h.held ho rfl
  have hperm := owned_perm ho (t := sp.table) rfl
  have hrun : (perform (.fault (some i) code a)).run s = _ := run_onSpace ho _
  rw [hrun]
  refine Outcome.Meets.andThen (op_meets (Transition.Meets.bind
    ((serviceFault_meets (h.take ho).2.1 hheld code a s.mmu).mono (fun _ _ hQ => hQ) ?_
      fun _ hH => hH) ?_))
  · intro cause k hrefused
    have htouches := hrefused.touches
    rw [p.spare_perm hperm] at htouches
    exact h.unchanged (hrefused.held.holds.perm hperm) htouches
  · rintro _ k ⟨writable, e, hgrants, hmaps, rfl⟩
    have hput : (s.withKernel k).put i (some (.space sp)) = s.withKernel k := put_object ho
    refine .done (.done ⟨k, writable, e, ?_, hgrants, hmaps⟩)
    rw [hput]

/-- A fault without an address space is refused and changes nothing. -/
theorem Sound.faultNowhere_meets (h : s.Sound p) (code : Nat) (a : VirtualAddress) :
    ((perform (.fault none code a)).run s).Meets (fun _ _ => False) (fun _ s' => s.Unchanged p s')
      never := by
  have hrun : (perform (.fault none code a)).run s =
      ((op (serviceFault none code a s.mmu)).run s).andThen fun mmu s' =>
        .done () { s' with mmu := mmu } := rfl
  rw [hrun]
  refine Outcome.Meets.andThen (op_meets ((serviceFault_none code a s.mmu).mono ?_ ?_
    fun _ hH => hH))
  · exact fun _ _ hfalse => hfalse.elim
  · exact fun _ k hlogs => h.unchanged (hlogs.holds h.holds_owned) (hlogs.touches _)

/-- A fault changes nothing when it is refused. -/
theorem Sound.fault_meets (h : s.Sound p) (i? : Option Nat) (code : Nat) (a : VirtualAddress) :
    ((perform (.fault i? code a)).run s).Meets (fun _ _ => True) (fun _ s' => s.Unchanged p s')
      never := by
  cases i? with
  | none =>
    exact (h.faultNowhere_meets code a).mono (fun _ _ hfalse => hfalse.elim) (fun _ _ hR => hR)
      fun _ hH => hH
  | some i =>
    rcases s.space_cases i with ⟨sp, ho⟩ | hspace
    · exact (h.faultAt_meets ho code a).mono (fun _ _ _ => trivial) (fun _ _ hR => hR)
        fun _ hH => hH
    · have hrun : (perform (.fault (some i) code a)).run s = .done () s :=
        run_onSpace_of_no_space hspace _
      rw [hrun]
      exact .done trivial

/-- In every session that a client can come to, a fault that is refused changes nothing, whatever its
address space, its code and its address. -/
theorem refused_fault_unchanged (hboot : s₀.Booted p)
    (hruns : Runs (fun s r => r.Permitted p s) s₀ trace s) {i? : Option Nat} {code : Nat}
    {a : VirtualAddress} {cause : Refusal}
    (hrun : (perform (.fault i? code a)).run s = .refused cause s') : s.Unchanged p s' :=
  ((hruns.sound (fun _ _ hr => hr) hboot.sound).fault_meets i? code a).of_refused hrun

/-! ## A small machine -/

/-- On three pages of RAM there is room for a page table and one second-level table, but not for a
page as well. -/
theorem three_pages_fault_unchanged : ∃ (s₀ s s' : Session) (cause : Refusal),
    s₀.Booted (pages 3) ∧ Runs (fun s r => r.Permitted (pages 3) s) s₀ [(.newSpace, true)] s ∧
      (perform (.fault (some 0) 0 stackPage)).run s = .refused cause s' ∧
        s.Unchanged (pages 3) s' := by
  obtain ⟨s₀, s, sp, hboot, hruns, hobjects, hvacant, hfree⟩ := exists_newSpace (n := 3)
    (P := fun s r => r.Permitted (pages 3) s) (by decide) (by decide) fun _ => trivial
  have hsound := hruns.sound (fun _ _ hr => hr) hboot.sound
  have ho := object_first hobjects
  have hneed := hsound.need_of_vacant ho hvacant stackPage
  obtain ⟨s', hrun⟩ := hsound.fault_short ho Nat.zero_lt_two (reaches_stackPage sp) (by omega)
  exact ⟨s₀, s, s', _, hboot, hruns, hrun, refused_fault_unchanged hboot hruns hrun⟩

end Session

end SoftPaging
