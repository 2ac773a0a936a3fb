import Mathlib
import SoftPaging.Proofs.Tlb.Buffer

/-!
# One entry for a page

The TLB does not look for an entry of a page before it writes another one. When each write is for a page
that no slot matches, and slots are otherwise only invalidated, all slots have pages of their own
nevertheless: a slot is `Settled` when it holds its invalid entry, whose page lies in the kernel segment
and is told by the number of the slot, or a valid entry for a page of the user. Valid entries differ in
their pages (`TlbBuffer.Distinct`), so no address is matched twice (`TlbBuffer.Unambiguous`). The
wired slots are never written to at random.
-/

namespace SoftPaging

/-- The page of an invalid entry is told by the number of its slot. -/
theorem EntryHi.val_page_invalid (slot : Fin tlbSlots) :
    (invalid slot.val).page.val = kernelSegment + slot.val * pageSize := by
  revert slot
  decide

namespace TlbBuffer

variable {b : TlbBuffer} {a : VirtualAddress}

/-- No address is matched by two slots, the wired slots are invalid, and no two slots, valid or not,
have the same page. -/
structure Unambiguous (b : TlbBuffer) : Prop where
  match_unique : ∀ (a : VirtualAddress) (slot slot' : Fin tlbSlots),
    (b.slots.get slot).isMatch a = true → (b.slots.get slot').isMatch a = true → slot = slot'
  wired_invalid : ∀ slot : Fin tlbSlots, slot.val < 8 → (b.slots.get slot).lo.isValid = false
  page_injective : Function.Injective fun slot : Fin tlbSlots => (b.slots.get slot).hi.page

/-- The slot holds its invalid entry, or it is not wired and holds a valid entry for a page below the
kernel segment. -/
def Settled (b : TlbBuffer) (slot : Fin tlbSlots) : Prop :=
  b.slots.get slot = .invalid slot.val ∨ tlbWiredSlots ≤ slot.val ∧
    (b.slots.get slot).lo.isValid = true ∧ (b.slots.get slot).hi.page.val < kernelSegment

/-- Every slot is settled, valid slots have different pages, and the next slot to be written at random
is not a wired one. -/
structure Distinct (b : TlbBuffer) : Prop where
  settled : ∀ slot, b.Settled slot
  unique : ∀ slot slot' : Fin tlbSlots, (b.slots.get slot).lo.isValid = true →
    (b.slots.get slot').lo.isValid = true →
      (b.slots.get slot).hi.page = (b.slots.get slot').hi.page → slot = slot'
  random_ge : tlbWiredSlots ≤ b.random.val

/-! ## What is written -/

theorem distinct_of_invalid (h : ∀ slot : Fin tlbSlots, b.slots.get slot = .invalid slot.val)
    (hrandom : tlbWiredSlots ≤ b.random.val) : b.Distinct where
  settled slot := .inl (h slot)
  unique slot slot' hvalid := by
    rw [h slot, TlbEntry.isValid_invalid] at hvalid
    cases hvalid
  random_ge := hrandom

theorem distinct_empty : empty.Distinct :=
  distinct_of_invalid (fun slot => by
    unfold empty
    simp only [Vector.get_eq_getElem, Vector.getElem_ofFn]) (by decide)

theorem random_flush (b : TlbBuffer) (on : Bool) : (TlbDevice.flush b on).random = b.random := by
  have hfold (slots : List (Fin tlbSlots)) (b : TlbBuffer) :
      (slots.foldl (fun b i => b.write i (.invalid i.val)) b).random = b.random := by
    induction slots generalizing b with
    | nil => rfl
    | cons i slots ih => exact ih (b.write i (.invalid i.val))
  exact hfold (List.finRange tlbSlots) b

theorem Distinct.flush (h : b.Distinct) (on : Bool) : Distinct (TlbDevice.flush b on) :=
  distinct_of_invalid (b.get_slots_flush on) (by rw [random_flush]; exact h.random_ge)

/-- The Random register stays off the wired slots. -/
theorem tlbWiredSlots_le_nextRandom (r : Fin tlbSlots) : tlbWiredSlots ≤ (nextRandom r).val := by
  rw [val_nextRandom]
  simp only [tlbWiredSlots, tlbSlots]
  split <;> omega

theorem isMatch_of_probe (h : b.probe a = none) (slot : Fin tlbSlots) :
    (b.slots.get slot).isMatch a = false :=
  List.findIdx?_eq_none_iff.1 h (b.slots.get slot)
    (Vector.mem_toList_iff.2 (Vector.getElem_mem slot.isLt))

/-- A valid entry is written for a page of the user that no slot matches. -/
theorem Distinct.writeRandom (h : b.Distinct) {e : PageEntry} (he : e.isValid = true)
    (ha : a.val < kernelSegment) (hmiss : b.probe a = none) :
    (b.writeRandom (.forPage a e)).Distinct := by
  have hpage : (TlbEntry.forPage a e).hi.page = a.pageBase := EntryHi.page_ofAddress a
  have hother (slot : Fin tlbSlots) (hvalid : (b.slots.get slot).lo.isValid = true) :
      (b.slots.get slot).hi.page ≠ a.pageBase := by
    intro heq
    have hmatch := TlbEntry.isMatch_iff.2 ⟨hvalid, heq⟩
    rw [isMatch_of_probe hmiss slot] at hmatch
    cases hmatch
  refine ⟨fun slot => ?_, fun slot slot' => ?_, tlbWiredSlots_le_nextRandom b.random⟩
  · by_cases hslot : b.random = slot
    · subst hslot
      refine .inr ⟨h.random_ge, ?_⟩
      rw [get_slots_writeRandom, if_pos rfl, hpage, Address.pageBase_val]
      exact ⟨he, (Nat.div_mul_le_self _ _).trans_lt ha⟩
    · unfold Settled
      rw [get_slots_writeRandom, if_neg hslot]
      exact h.settled slot
  · rw [get_slots_writeRandom, get_slots_writeRandom]
    by_cases hslot : b.random = slot <;> by_cases hslot' : b.random = slot'
    · exact fun _ _ _ => hslot.symm.trans hslot'
    · rw [if_pos hslot, if_neg hslot', hpage]
      exact fun _ hvalid heq => absurd heq.symm (hother slot' hvalid)
    · rw [if_neg hslot, if_pos hslot', hpage]
      exact fun hvalid _ heq => absurd heq (hother slot hvalid)
    · rw [if_neg hslot, if_neg hslot']
      exact h.unique slot slot'

/-! ## What that comes to -/

/-- A settled slot that is not valid has a page in the kernel segment. -/
theorem Distinct.page_of_invalid (h : b.Distinct) {slot : Fin tlbSlots}
    (hinvalid : (b.slots.get slot).lo.isValid = false) :
    (b.slots.get slot).hi.page.val = kernelSegment + slot.val * pageSize := by
  rcases h.settled slot with hslot | ⟨-, hvalid, -⟩
  · rw [hslot]
    exact EntryHi.val_page_invalid slot
  · rw [hvalid] at hinvalid
    cases hinvalid

theorem Distinct.page_of_valid (h : b.Distinct) {slot : Fin tlbSlots}
    (hvalid : (b.slots.get slot).lo.isValid = true) :
    tlbWiredSlots ≤ slot.val ∧ (b.slots.get slot).hi.page.val < kernelSegment := by
  rcases h.settled slot with hslot | ⟨hwired, -, hlt⟩
  · rw [hslot, TlbEntry.isValid_invalid] at hvalid
    cases hvalid
  · exact ⟨hwired, hlt⟩

theorem Distinct.page_injective (h : b.Distinct) :
    Function.Injective fun slot : Fin tlbSlots => (b.slots.get slot).hi.page := by
  intro slot slot' heq
  have hval := congrArg Address.val heq
  cases hvalid : (b.slots.get slot).lo.isValid <;> cases hvalid' : (b.slots.get slot').lo.isValid
  · simp only [h.page_of_invalid hvalid, h.page_of_invalid hvalid', pageSize] at hval
    exact Fin.ext (by omega)
  · have hlt := (h.page_of_valid hvalid').2
    simp only [h.page_of_invalid hvalid] at hval
    omega
  · have hlt := (h.page_of_valid hvalid).2
    simp only [h.page_of_invalid hvalid'] at hval
    omega
  · exact h.unique slot slot' hvalid hvalid' heq

theorem Distinct.unambiguous (h : b.Distinct) : b.Unambiguous where
  match_unique a slot slot' hmatch hmatch' := by
    obtain ⟨-, hpage⟩ := TlbEntry.isMatch_iff.1 hmatch
    obtain ⟨-, hpage'⟩ := TlbEntry.isMatch_iff.1 hmatch'
    exact h.page_injective (hpage.trans hpage'.symm)
  wired_invalid slot hlt := by
    refine Bool.eq_false_iff.2 fun hvalid => ?_
    exact absurd (h.page_of_valid hvalid).1 (Nat.not_le.2 hlt)
  page_injective := h.page_injective

end TlbBuffer

end SoftPaging
