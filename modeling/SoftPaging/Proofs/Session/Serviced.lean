import Mathlib
import SoftPaging.Proofs.Session.Granting
import SoftPaging.Proofs.Session.Others
import SoftPaging.Proofs.Space.Deciding

/-!
# What a serviced fault does

A fault that is serviced writes one slot of the TLB, the one that the Random register names, and
leaves the interrupts as they were. Of memory it changes nothing when the page was resident. When it
was not, the page lies in the lowest free frame, filled with zeros, after a second-level table that was
missing got the lowest one; and then the records of these frames, and one word of one table that was
there, are all else that is different (`fault_services`).
-/

namespace SoftPaging

open Outcome

namespace Session

variable {p : FramePool} {s s' s₀ : Session} {trace : List (Request × Bool)} {i : Nat}
  {sp : AddressSpace} {a : VirtualAddress} {k' : Kernel}

/-- The page of an address, which was not resident, lies in frame `f`. The frames `taken` were handed
out for that, and of the tables that were there only the one in frame `table` was written to. -/
structure Fills (p : FramePool) (s : Session) (sp : AddressSpace) (a : VirtualAddress)
    (taken : List Nat) (f table : Nat) (s' : Session) : Prop where
  records : p.Lent s.kernel.ram s'.kernel.ram taken
  isValid : (sp.table.entryIn s'.kernel.ram a).isValid = true
  frame?_eq : (sp.table.entryIn s'.kernel.ram a).frame? = some (frameAt f)
  isDirty_iff : (sp.table.entryIn s'.kernel.ram a).isDirty = true ↔ sp.MayWrite a
  nocache_eq : (sp.table.entryIn s'.kernel.ram a).flags.contains .nocache = false
  global_eq : (sp.table.entryIn s'.kernel.ram a).flags.contains .global = false
  zero : ∀ o < pageSize, s'.kernel.ram.byte (f * pageSize + o) = 0
  slot_eq : ∀ n, n ≠ a.directoryIndex →
    sp.table.slotIn s'.kernel.ram n = sp.table.slotIn s.kernel.ram n
  entry_eq : ∀ b : VirtualAddress, b.pageBase ≠ a.pageBase →
    sp.table.entryIn s'.kernel.ram b = sp.table.entryIn s.kernel.ram b
  byte_eq : ∀ n, n / pageSize ∉ table :: taken → ¬ p.IsRecord n →
    s'.kernel.ram.byte n = s.kernel.ram.byte n

/-- A fault at an address of the space `sp` was serviced, and this is all that is different. -/
structure Services (p : FramePool) (s : Session) (i : Nat) (sp : AddressSpace) (a : VirtualAddress)
    (s' : Session) : Prop where
  refills : s.mmu.Refills a (sp.table.entryIn s'.kernel.ram a) s'.mmu
  object_eq : s'.object i = some (.space sp)
  others : s.ChangesOnly i s'
  resident : (sp.table.entryIn s.kernel.ram a).isValid = true → s'.kernel.ram = s.kernel.ram
  /-- The second-level table was there: the page takes the lowest free frame. -/
  placed : (sp.table.entryIn s.kernel.ram a).isValid = false → ∀ leaf,
    sp.table.slotIn s.kernel.ram a.directoryIndex = some leaf →
      ∃ f, IsLeast (p.free s.kernel.ram) f ∧ s.Fills p sp a [f] f leaf.frame.number.val s' ∧
        sp.table.slotIn s'.kernel.ram a.directoryIndex = some leaf
  /-- The second-level table was missing: it takes the lowest free frame, and the page the next. -/
  opened : sp.table.slotIn s.kernel.ram a.directoryIndex = none →
    ∃ g f, IsLeast (p.free s.kernel.ram) g ∧ IsLeast (p.free s.kernel.ram \ {g}) f ∧
      s.Fills p sp a [g, f] f sp.table.frame s' ∧
        sp.table.slotIn s'.kernel.ram a.directoryIndex = some ⟨frameAt g⟩ ∧
          ∀ j, j ≠ a.tableIndex → (EntryTable.mk (frameAt g)).entryIn s'.kernel.ram j = .empty

/-- What is to be seen when a page was placed in a second-level table that has the pages of its
slot. -/
theorem fills_of_placed {m : TableMap} {rest : List Block} {l : Leaf} {f table : Nat}
    {writable : Bool} {F : Set Nat} {taken : List Nat} (hsp : sp.Sound)
    (ht : sp.table.Held s.kernel p m rest)
    (h : sp.table.Placed p rest s.kernel m a l ⟨f, writable⟩ F s'.kernel)
    (hpages : ∀ j, l.pages j = m.page a.directoryIndex j) (hgrants : sp.grants a = some writable)
    (hlent : p.Lent s.kernel.ram s'.kernel.ram taken) (hF : ∀ n ∈ F, n ∈ table :: taken) :
    s.Fills p sp a taken f table s' := by
  have hpage : (m.setSlot a.directoryIndex (some (l.setPage a.tableIndex (some ⟨f, writable⟩)))).page
      a.directoryIndex a.tableIndex = some ⟨f, writable⟩ := by
    rw [TableMap.page_setSlot_self, Leaf.pages_setPage_self]
  have hlt := h.held.holds.frame_lt (h.held.page_mem hpage)
  have hentry := h.entryIn_self
  have hflags (writable : Bool) : (PageFlags.mapped writable).contains .nocache = false ∧
      (PageFlags.mapped writable).contains .global = false := by
    cases writable <;> decide
  refine ⟨hlent, ?_, ?_, ?_, ?_, ?_, h.zero, fun n hn => h.slotIn_of_ne ht hn,
    fun b hb => h.entryIn_of_ne ht hpages hb,
    fun n hn => h.touches.byte_eq n fun hmem => hn (hF _ hmem)⟩
  · rw [hentry, Page.isValid_entry]
  · rw [hentry, Page.frame?_entry _ hlt]
  · rw [hentry, Page.isDirty_entry, hsp.mayWrite_iff, hgrants, Option.some.injEq]
  · rw [hentry, Page.flags_entry]
    exact (hflags writable).1
  · rw [hentry, Page.flags_entry]
    exact (hflags writable).2

theorem Sound.services (h : s.Sound p) (ho : s.object i = some (.space sp)) {code : Nat}
    (hrun : (perform (.fault (some i) code a)).run s = .done () s') : s.Services p i sp a s' := by
  obtain ⟨k', writable, e, rfl, hgrants, hsupplied⟩ := (h.faultAt_supplies ho code a).of_done hrun
  have hsp := (h.take ho).2.1
  have hheld := h.held ho (t := sp.table) rfl
  have hfree := hheld.holds.represents.free_eq
  have hclosed {l : Leaf} (hl : sp.table.mapIn s.kernel.ram a.directoryIndex = some l) :
      sp.table.slotIn s.kernel.ram a.directoryIndex = some l.table := by
    rw [hheld.shows.slotIn_eq, hl]
    rfl
  refine ⟨?_, ho, h.changesOnly rfl (fun _ _ => rfl) (hsupplied.sameBlocks hheld), ?_, ?_, ?_⟩
  · show s.mmu.Refills a (sp.table.entryIn k'.ram a) _
    rw [hsupplied.entryIn_eq hheld]
    exact s.mmu.refills_install a e
  · intro hvalid
    rw [hheld.shows.entryIn_eq, isValid_entryOf] at hvalid
    cases hsupplied with
    | resident hpg hram => exact hram
    | placed hl hpg hf hplaced => simp [TableMap.page_of_slot hl, hpg] at hvalid
    | opened hi hg hf hplaced => simp [TableMap.page_of_closed hi] at hvalid
  · intro hinvalid leaf hleaf
    rw [hheld.shows.entryIn_eq, isValid_entryOf] at hinvalid
    cases hsupplied with
    | resident hpg hram => simp [hpg] at hinvalid
    | opened hi hg hf hplaced => simp [hheld.shows.slotIn_eq, hi] at hleaf
    | @placed l f _ hl hpg hf hplaced =>
      obtain rfl := Option.some.inj ((hclosed hl).symm.trans hleaf)
      have hlt := (hheld.shows.leaf_shows _ l hl).frame_lt
      have hlent := hplaced.lent_of_open hheld hl hpg
      refine ⟨f, hfree ▸ hf, fills_of_placed hsp hheld hplaced
        (fun j => (TableMap.page_of_slot hl j).symm) hgrants hlent ?_, hplaced.slotIn_self⟩
      simp [Leaf.table, number_frameAt hlt]
  · intro hnone
    cases hsupplied with
    | resident hpg hram =>
      obtain ⟨l, hl, -⟩ := TableMap.page_eq_some.1 hpg
      simp [hclosed hl] at hnone
    | placed hl hpg hf hplaced => simp [hclosed hl] at hnone
    | @opened g f _ hi hg hf hplaced =>
      have hlent := hplaced.lent_of_closed hheld hi
      refine ⟨g, f, hfree ▸ hg, hfree ▸ hf, fills_of_placed hsp hheld hplaced
        (fun j => (TableMap.page_of_closed hi j).symm) hgrants hlent ?_, hplaced.slotIn_self,
          fun j hj => hplaced.leaf_entryIn hj⟩
      simp

/-- However a session was come to, a fault that is serviced does this and nothing else. -/
theorem fault_services (hboot : s₀.Booted p)
    (hruns : Runs (fun s r => r.Permitted p s) s₀ trace s) (ho : s.object i = some (.space sp))
    {code : Nat} (hrun : (perform (.fault (some i) code a)).run s = .done () s') :
    s.Services p i sp a s' :=
  (hruns.sound (fun _ _ hr => hr) hboot.sound).services ho hrun

/-- On four pages of RAM, the first fault of a space finds the two frames that it needs. -/
theorem four_pages_serviced : ∃ (s₀ s s' : Session) (sp : AddressSpace), s₀.Booted (pages 4) ∧
    Runs (fun s r => r.Permitted (pages 4) s) s₀ [(.newSpace, true)] s ∧
      s.object 0 = some (.space sp) ∧
        (perform (.fault (some 0) 0 stackPage)).run s = .done () s' ∧
          s.Services (pages 4) 0 sp stackPage s' ∧
            sp.table.slotIn s.kernel.ram stackPage.directoryIndex = none := by
  obtain ⟨s₀, s, sp, hboot, -, hmade, hsound, -, halone, -, hvacant⟩ :=
    exists_alone (n := 4) (by decide) (by decide)
  have hruns : Runs (fun s r => r.Permitted (pages 4) s) s₀ [(.newSpace, true)] s :=
    .granted .start trivial hmade
  obtain ⟨s', hfault, -⟩ := halone.fault_done hsound (by decide) hvacant (reaches_stackPage sp)
  have hheld := hsound.held halone.object_eq (t := sp.table) rfl
  refine ⟨s₀, s, s', sp, hboot, hruns, halone.object_eq, hfault,
    fault_services hboot hruns halone.object_eq hfault, ?_⟩
  rw [hheld.shows.slotIn_eq, hvacant]
  rfl

end Session

end SoftPaging
