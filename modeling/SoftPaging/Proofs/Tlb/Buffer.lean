import Mathlib
import SoftPaging.Tlb.Mmu
import SoftPaging.Proofs.Paging.Image

/-!
# What the TLB translates

The TLB reflects a table when each of its valid slots holds the entry that the table has for the page
of the slot (`TlbBuffer.Reflects`). A table is given here as a function from addresses to entries.
Writing an entry of the table keeps this, an invalidated TLB has it for any table, and so does the
table when it changes nothing but entries that map nothing.

A TLB that reflects a table misses, or translates as the table does (`Reflects.translate_eq`). Which
slot is found first makes no difference, because all that match an address hold the same entry.
-/

namespace SoftPaging

/-! ## The page of an entry -/

@[simp] theorem EntryHi.page_ofAddress (a : VirtualAddress) : (ofAddress a).page = a.pageBase := by
  refine Address.ext ?_
  unfold page ofAddress
  rw [Address.val_ofWord, UInt32.and_assoc, UInt32.and_self]
  exact a.toNat_and_pageMask

theorem TlbEntry.isMatch_iff {e : TlbEntry} {a : VirtualAddress} :
    e.isMatch a = true ↔ e.lo.isValid = true ∧ e.hi.page = a.pageBase := by
  unfold isMatch
  rw [Bool.and_eq_true, beq_iff_eq]

@[simp] theorem TlbEntry.isValid_invalid (slot : Nat) : (invalid slot).lo.isValid = false :=
  PageEntry.isValid_empty

@[simp] theorem PageTable.entryIn_pageBase (t : PageTable) (ram : Ram) (a : VirtualAddress) :
    t.entryIn ram a.pageBase = t.entryIn ram a := by
  unfold entryIn
  rw [← Address.pageAt_position, Address.directoryIndex_pageAt, Address.tableIndex_pageAt]

namespace TlbBuffer

variable {b : TlbBuffer} {entries entries' : VirtualAddress → PageEntry} {a : VirtualAddress}

/-! ## Writing -/

theorem get_slots_write (b : TlbBuffer) (i : Fin tlbSlots) (e : TlbEntry) (slot : Fin tlbSlots) :
    (b.write i e).slots.get slot = if i = slot then e else b.slots.get slot := by
  unfold write
  simp only [Vector.get_eq_getElem, Vector.getElem_set, Fin.ext_iff]

@[simp] theorem get_slots_writeRandom (b : TlbBuffer) (e : TlbEntry) (slot : Fin tlbSlots) :
    (b.writeRandom e).slots.get slot = if b.random = slot then e else b.slots.get slot := by
  unfold writeRandom
  simp only [Vector.get_eq_getElem, Vector.getElem_set, Fin.ext_iff]

theorem val_nextRandom (r : Fin tlbSlots) :
    (nextRandom r).val = if r.val ≤ tlbWiredSlots then tlbSlots - 1 else r.val - 1 := by
  unfold nextRandom
  split <;> rfl

/-- Invalidating some of the slots, one after another. -/
theorem get_slots_foldl_write (is : List (Fin tlbSlots)) (b : TlbBuffer) (slot : Fin tlbSlots) :
    (is.foldl (fun b i => b.write i (.invalid i.val)) b).slots.get slot =
      if slot ∈ is then .invalid slot.val else b.slots.get slot := by
  induction is generalizing b with
  | nil => rfl
  | cons i is ih =>
    rw [List.foldl_cons, ih]
    by_cases hmem : slot ∈ is
    · rw [if_pos hmem, if_pos (List.mem_cons_of_mem i hmem)]
    · rw [if_neg hmem, get_slots_write]
      by_cases hi : i = slot
      · rw [if_pos hi, if_pos (hi ▸ List.mem_cons_self), hi]
      · rw [if_neg hi, if_neg]
        rw [List.mem_cons]
        exact not_or.2 ⟨fun heq => hi heq.symm, hmem⟩

theorem get_slots_flush (b : TlbBuffer) (on : Bool) (slot : Fin tlbSlots) :
    (TlbDevice.flush b on).slots.get slot = .invalid slot.val := by
  have hfold := get_slots_foldl_write (List.finRange tlbSlots) b slot
  rw [if_pos (List.mem_finRange slot)] at hfold
  exact hfold

/-! ## Reflecting a table -/

/-- Each valid slot holds the entry that the table has for the page of the slot. -/
def Reflects (b : TlbBuffer) (entries : VirtualAddress → PageEntry) : Prop :=
  ∀ slot : Fin tlbSlots, (b.slots.get slot).lo.isValid = true →
    (b.slots.get slot).lo = entries (b.slots.get slot).hi.page

theorem reflects_of_invalid (h : ∀ slot : Fin tlbSlots, b.slots.get slot = .invalid slot.val)
    (entries : VirtualAddress → PageEntry) : b.Reflects entries := by
  intro slot hvalid
  rw [h slot, TlbEntry.isValid_invalid] at hvalid
  cases hvalid

/-- An invalid TLB matches no address. -/
theorem isMatch_of_invalid (h : ∀ slot : Fin tlbSlots, b.slots.get slot = .invalid slot.val)
    (a : VirtualAddress) {e : TlbEntry} (he : e ∈ b.slots.toList) : e.isMatch a = false := by
  obtain ⟨n, hn, rfl⟩ := List.getElem_of_mem he
  have hlt : n < tlbSlots := by simpa using hn
  have hslot : b.slots.toList[n] = .invalid n := h ⟨n, hlt⟩
  simp [TlbEntry.isMatch, hslot]

theorem probe_of_invalid (h : ∀ slot : Fin tlbSlots, b.slots.get slot = .invalid slot.val)
    (a : VirtualAddress) : b.probe a = none :=
  List.findIdx?_eq_none_iff.2 fun _ he => isMatch_of_invalid h a he

theorem translate_of_invalid (h : ∀ slot : Fin tlbSlots, b.slots.get slot = .invalid slot.val)
    (a : VirtualAddress) : b.translate a = none := by
  refine List.findSome?_eq_none_iff.2 fun e he => ?_
  simp [TlbEntry.translate, isMatch_of_invalid h a he]

theorem reflects_empty (entries : VirtualAddress → PageEntry) : empty.Reflects entries :=
  reflects_of_invalid (fun slot => by
    unfold empty
    simp only [Vector.get_eq_getElem, Vector.getElem_ofFn]) entries

theorem reflects_flush (b : TlbBuffer) (on : Bool) (entries : VirtualAddress → PageEntry) :
    Reflects (TlbDevice.flush b on) entries :=
  reflects_of_invalid (b.get_slots_flush on) entries

namespace Reflects

/-- The table may change where it maps nothing. -/
theorem mono (h : b.Reflects entries)
    (hentries : ∀ a, (entries a).isValid = true → entries' a = entries a) : b.Reflects entries' := by
  intro slot hvalid
  have heq := h slot hvalid
  rw [hentries _ (heq ▸ hvalid)]
  exact heq

theorem writeRandom (h : b.Reflects entries) {e : TlbEntry} (he : e.lo = entries e.hi.page) :
    (b.writeRandom e).Reflects entries := by
  intro slot
  rw [get_slots_writeRandom]
  by_cases hslot : b.random = slot
  · rw [if_pos hslot]
    exact fun _ => he
  · rw [if_neg hslot]
    exact h slot

/-- A slot that matches an address holds the entry of the table. -/
theorem lo_eq (h : b.Reflects entries) (hpage : entries a.pageBase = entries a)
    {slot : Fin tlbSlots} (hmatch : (b.slots.get slot).isMatch a = true) :
    (b.slots.get slot).lo = entries a := by
  obtain ⟨hvalid, hhi⟩ := TlbEntry.isMatch_iff.1 hmatch
  rw [h slot hvalid, hhi, hpage]

/-- The TLB misses, or translates as the table does. -/
theorem translate_eq (h : b.Reflects entries) (hpage : entries a.pageBase = entries a) :
    b.translate a = none ∨ b.translate a = (entries a).translate a := by
  cases hfound : b.translate a with
  | none => exact .inl rfl
  | some pa =>
    obtain ⟨e, he, htranslate⟩ := List.exists_of_findSome?_eq_some hfound
    obtain ⟨n, hn, rfl⟩ := List.getElem_of_mem he
    have hlt : n < tlbSlots := by rwa [Vector.length_toList] at hn
    rw [Vector.getElem_toList] at htranslate
    unfold TlbEntry.translate at htranslate
    rw [Option.ite_none_right_eq_some] at htranslate
    obtain ⟨hmatch, htranslate⟩ := htranslate
    have hmatch : (b.slots.get ⟨n, hlt⟩).isMatch a = true := hmatch
    have hlo : b.slots[n].lo = entries a := h.lo_eq hpage hmatch
    rw [← hlo, htranslate]
    exact .inr rfl

/-- The TLB does not miss where a slot matches. -/
theorem translate_of_match (h : b.Reflects entries) (hpage : entries a.pageBase = entries a)
    {slot : Fin tlbSlots} (hmatch : (b.slots.get slot).isMatch a = true) :
    ∃ pa, b.translate a = some pa ∧ (entries a).translate a = some pa := by
  have hvalid : (entries a).isValid = true := by
    rw [← h.lo_eq hpage hmatch]
    exact (TlbEntry.isMatch_iff.1 hmatch).1
  obtain ⟨pa, hpa⟩ : ∃ pa, (entries a).translate a = some pa := ⟨_, if_pos hvalid⟩
  refine ⟨pa, ?_, hpa⟩
  rcases h.translate_eq hpage with hmiss | hhit
  · have hnone := List.findSome?_eq_none_iff.1 hmiss (b.slots.get slot)
      (Vector.mem_toList_iff.2 (Vector.getElem_mem slot.isLt))
    unfold TlbEntry.translate at hnone
    rw [if_pos hmatch, h.lo_eq hpage hmatch, hpa] at hnone
    cases hnone
  · rw [hhit, hpa]

end Reflects

/-! ## Pages of the user -/

/-- Each valid slot is the one that `b₀` has there, or maps a page below the kernel segment. -/
def UserSince (b b₀ : TlbBuffer) : Prop :=
  ∀ slot : Fin tlbSlots, (b.slots.get slot).lo.isValid = true →
    b.slots.get slot = b₀.slots.get slot ∨ (b.slots.get slot).hi.page.val < kernelSegment

theorem userSince_refl (b : TlbBuffer) : b.UserSince b := fun _ _ => .inl rfl

theorem userSince_flush (b b₀ : TlbBuffer) (on : Bool) : UserSince (TlbDevice.flush b on) b₀ := by
  intro slot hvalid
  rw [b.get_slots_flush on slot, TlbEntry.isValid_invalid] at hvalid
  cases hvalid

theorem UserSince.writeRandom {b₀ : TlbBuffer} (h : b.UserSince b₀) {e : TlbEntry}
    (he : e.hi.page.val < kernelSegment) : (b.writeRandom e).UserSince b₀ := by
  intro slot
  rw [get_slots_writeRandom]
  by_cases hslot : b.random = slot
  · rw [if_pos hslot]
    exact fun _ => .inr he
  · rw [if_neg hslot]
    exact h slot

end TlbBuffer

/-! ## Through the MMU -/

namespace Mmu

variable {m : Mmu TlbBuffer} {entries : VirtualAddress → PageEntry}

theorem reflects_flush (m : Mmu TlbBuffer) (entries : VirtualAddress → PageEntry) :
    m.flush.tlb.Reflects entries := m.tlb.reflects_flush false entries

theorem reflects_install (h : m.tlb.Reflects entries) {a : VirtualAddress} {e : PageEntry}
    (he : e = entries a.pageBase) : (m.install (.forPage a e)).tlb.Reflects entries := by
  refine TlbBuffer.Reflects.writeRandom h ?_
  rw [TlbEntry.forPage, EntryHi.page_ofAddress, he]

/-- The entry of an address went into the slot that the Random register named; the register moved on,
and the interrupts are what they were. -/
structure Refills (m : Mmu TlbBuffer) (a : VirtualAddress) (e : PageEntry) (m' : Mmu TlbBuffer) :
    Prop where
  hi_eq : (m'.tlb.slots.get m.tlb.random).hi.bits.toNat = a.pageBase.val
  lo_eq : (m'.tlb.slots.get m.tlb.random).lo = e
  others_eq : ∀ slot, slot ≠ m.tlb.random → m'.tlb.slots.get slot = m.tlb.slots.get slot
  random_eq : m'.tlb.random.val =
    if m.tlb.random.val ≤ tlbWiredSlots then tlbSlots - 1 else m.tlb.random.val - 1
  enabled_eq : m'.interrupts.enabled = m.interrupts.enabled
  windows_eq : m'.interrupts.windows =
    m.interrupts.windows + if m.interrupts.enabled then 1 else 0

theorem refills_install (m : Mmu TlbBuffer) (a : VirtualAddress) (e : PageEntry) :
    m.Refills a e (m.install (.forPage a e)) := by
  have hslots (slot : Fin tlbSlots) : (m.install (.forPage a e)).tlb.slots.get slot =
      if m.tlb.random = slot then .forPage a e else m.tlb.slots.get slot :=
    m.tlb.get_slots_writeRandom (.forPage a e) slot
  have hself := hslots m.tlb.random
  rw [if_pos rfl] at hself
  constructor
  · rw [hself]
    exact a.toNat_and_pageMask
  · rw [hself]
    rfl
  · intro slot hne
    rw [hslots, if_neg (Ne.symm hne)]
  · exact TlbBuffer.val_nextRandom m.tlb.random
  · rfl
  · change (if m.interrupts.enabled then m.interrupts.windows + 1 else m.interrupts.windows) = _
    split <;> rfl

/-- An entry that was installed is found. -/
theorem exists_match_install (m : Mmu TlbBuffer) (a : VirtualAddress) {e : PageEntry}
    (he : e.isValid = true) :
    ∃ slot : Fin tlbSlots, ((m.install (.forPage a e)).tlb.slots.get slot).isMatch a = true := by
  have hslot := m.tlb.get_slots_writeRandom (.forPage a e) m.tlb.random
  rw [if_pos rfl] at hslot
  refine ⟨m.tlb.random, ?_⟩
  change ((m.tlb.writeRandom (.forPage a e)).slots.get m.tlb.random).isMatch a = true
  rw [hslot, TlbEntry.isMatch_iff]
  exact ⟨he, EntryHi.page_ofAddress a⟩

end Mmu

end SoftPaging
