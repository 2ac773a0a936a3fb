import Mathlib
import SoftPaging.Proofs.Tlb.Buffer

/-!
# Looking an address up in the TLB

The two look-ups go through the slots separately. Whatever the slots hold, both find the lowest one
that supplies the address (`Supplies`), and translating takes the frame of that slot and the offset
of the address (`looksUp`). An entry that was made for a page is read back as what it was made of
(`Decodes`).
-/

namespace SoftPaging

/-- The slot holds a valid translation, and its page agrees with the address in bits 12 to 31. The
other bits of the slot do not take part. -/
def TlbEntry.Supplies (e : TlbEntry) (a : VirtualAddress) : Prop :=
  e.lo.bits.toNat.testBit 9 = true ∧
    ∀ i, 12 ≤ i → i < 32 → e.hi.bits.toNat.testBit i = a.val.testBit i

/-- Both look-ups find the lowest slot that supplies the address, or nothing. -/
structure TlbBuffer.LooksUp (b : TlbBuffer) (a : VirtualAddress) : Prop where
  probe_eq_none_iff : b.probe a = none ↔ ∀ slot, ¬ (b.slots.get slot).Supplies a
  probe_eq_some_iff : ∀ i, b.probe a = some i ↔ ∃ slot : Fin tlbSlots, slot.val = i ∧
    (b.slots.get slot).Supplies a ∧ ∀ lower < slot, ¬ (b.slots.get lower).Supplies a
  translate_eq_none_iff : b.translate a = none ↔ b.probe a = none
  translate_eq : ∀ slot : Fin tlbSlots, b.probe a = some slot.val →
    ∃ frame pa : PhysicalAddress,
      frame.val = (b.slots.get slot).lo.bits.toNat / pageSize * pageSize ∧
      frame.add a.pageOffset = .ok pa ∧ b.translate a = some pa

/-- The flags are flags alone, as those made by `ofBits` are. -/
def PageFlags.Proper (f : PageFlags) : Prop := .ofBits f.bits = f

/-- The entry for the page of an address is read back as the page, the frame and the flags it was
made of. -/
structure TlbEntry.Decodes (e : TlbEntry) (a : VirtualAddress) (frame : PhysicalAddress)
    (flags : PageFlags) : Prop where
  page_eq : e.hi.page = a.pageBase
  pid_eq : e.hi.pid = 0
  flags_eq : e.lo.flags = flags
  frame?_eq : e.lo.frame? = if flags.contains .valid then some frame else none

/-! ## Fields of a word -/

/-- Addresses lie in one page when they agree from bit 12 on. -/
theorem Address.pageBase_eq_iff_testBit {realm : Realm} {a b : Address realm} :
    a.pageBase = b.pageBase ↔ ∀ i, 12 ≤ i → i < 32 → a.val.testBit i = b.val.testBit i := by
  have hpage : pageSize = 2 ^ 12 := rfl
  constructor
  · intro h i hi _
    have hdiv : a.val / 2 ^ 12 = b.val / 2 ^ 12 := by
      have hval := congrArg Address.val h
      rw [pageBase_val, pageBase_val, hpage] at hval
      omega
    rw [← Nat.sub_add_cancel hi, ← Nat.testBit_div_two_pow, ← Nat.testBit_div_two_pow, hdiv]
  · intro h
    refine Address.ext ?_
    rw [pageBase_val, pageBase_val, hpage]
    congr 1
    refine Nat.eq_of_testBit_eq fun i => ?_
    rw [Nat.testBit_div_two_pow, Nat.testBit_div_two_pow]
    by_cases hi : i + 12 < 32
    · exact h (i + 12) (by omega) hi
    · -- neither address has bits this high
      have hhigh (c : Address realm) : c.val.testBit (i + 12) = false :=
        Nat.testBit_lt_two_pow (Nat.lt_of_lt_of_le c.val_lt
          (Nat.pow_le_pow_right (n := 2) (i := 32) (by decide) (by omega)))
      rw [hhigh, hhigh]

/-- What the mask over the number of a page leaves of any word. -/
theorem Address.toNat_word_and_pageMask (realm : Realm) (w : UInt32) :
    (w &&& 0xFFFFF000).toNat = (ofWord w : Address realm).pageBase.val := by
  have hword : (ofWord w : Address realm).toWord = w := UInt32.toNat_inj.1 (toNat_toWord _)
  rw [← toNat_and_pageMask, hword]

namespace PageEntry

variable {e : PageEntry}

/-- An entry is valid by its bit 9. -/
theorem isValid_iff_testBit : e.isValid = true ↔ e.bits.toNat.testBit 9 = true := by
  have hmask : e.bits &&& 0xF00 &&& 0x200 = e.bits &&& 0x200 := UInt32.and_assoc ..
  have hbit : (e.bits &&& 0x200).toNat = (e.bits.toNat.testBit 9).toNat * 2 ^ 9 :=
    Nat.and_two_pow e.bits.toNat 9
  unfold isValid flags PageFlags.contains PageFlags.ofBits PageFlags.valid
  rw [beq_iff_eq, hmask, ← UInt32.toNat_inj, hbit]
  cases e.bits.toNat.testBit 9 <;> decide

/-- The place of the frame is what lies above the offset. -/
theorem toNat_frameBits : e.frameBits.toNat = e.bits.toNat / pageSize * pageSize :=
  (Address.toNat_word_and_pageMask .physical e.bits).trans (Address.pageBase_val _)

/-- A valid entry adds the offset of the address to its frame, and the sum fits. -/
theorem translate_eq_add (h : e.isValid = true) (a : VirtualAddress) :
    ∃ pa, (Address.ofWord e.frameBits : PhysicalAddress).add a.pageOffset = .ok pa ∧
      e.translate a = some pa := by
  unfold translate
  rw [if_pos h]
  exact ⟨_, Address.add_eq_ok_iff.2 rfl, rfl⟩

end PageEntry

theorem TlbEntry.isMatch_iff_supplies {e : TlbEntry} {a : VirtualAddress} :
    e.isMatch a = true ↔ e.Supplies a := by
  have hpage : e.hi.page = (Address.ofWord e.hi.bits).pageBase :=
    Address.ext (Address.toNat_word_and_pageMask .virtual e.hi.bits)
  rw [isMatch_iff, PageEntry.isValid_iff_testBit, hpage, Address.pageBase_eq_iff_testBit]
  rfl

/-! ## Going through the slots -/

namespace TlbBuffer

variable {b : TlbBuffer} {a : VirtualAddress}

theorem isMatch_getElem_iff {i : Nat} (hi : i < tlbSlots) :
    b.slots[i].isMatch a = true ↔ (b.slots.get ⟨i, hi⟩).Supplies a :=
  TlbEntry.isMatch_iff_supplies

theorem probe_eq_none_iff :
    b.probe a = none ↔ ∀ slot, ¬ (b.slots.get slot).Supplies a := by
  unfold probe
  rw [List.findIdx?_eq_none_iff, List.forall_mem_iff_getElem]
  simp only [Vector.length_toList, Vector.getElem_toList, Bool.eq_false_iff, ne_eq]
  exact ⟨fun h slot => mt (isMatch_getElem_iff slot.isLt).2 (h slot.val slot.isLt),
    fun h i hi => mt (isMatch_getElem_iff hi).1 (h ⟨i, hi⟩)⟩

theorem probe_eq_some_iff {i : Nat} :
    b.probe a = some i ↔ ∃ slot : Fin tlbSlots, slot.val = i ∧
      (b.slots.get slot).Supplies a ∧ ∀ lower < slot, ¬ (b.slots.get lower).Supplies a := by
  unfold probe
  rw [List.findIdx?_eq_some_iff_getElem]
  simp only [Vector.length_toList, Vector.getElem_toList]
  constructor
  · rintro ⟨hi, hmatch, hlower⟩
    exact ⟨⟨i, hi⟩, rfl, (isMatch_getElem_iff hi).1 hmatch, fun lower hlt =>
      mt (isMatch_getElem_iff lower.isLt).2 (hlower lower.val hlt)⟩
  · rintro ⟨slot, rfl, hsupplies, hlower⟩
    exact ⟨slot.isLt, (isMatch_getElem_iff slot.isLt).2 hsupplies, fun j hj =>
      mt (isMatch_getElem_iff (Nat.lt_trans hj slot.isLt)).1 (hlower ⟨j, _⟩ hj)⟩

/-- Translating asks the slot that probing finds. -/
theorem translate_eq_bind_probe (b : TlbBuffer) (a : VirtualAddress) :
    b.translate a =
      (b.probe a).bind fun i => b.slots.toList[i]?.bind fun e => e.lo.translate a := by
  unfold translate probe
  induction b.slots.toList with
  | nil => rfl
  | cons e es ih =>
    rw [List.findSome?_cons, List.findIdx?_cons, TlbEntry.translate]
    by_cases hmatch : e.isMatch a = true
    · obtain ⟨pa, -, hpa⟩ := PageEntry.translate_eq_add (TlbEntry.isMatch_iff.1 hmatch).1 a
      simp [hmatch, hpa]
    · simp [hmatch, ih, Option.bind_map]

theorem translate_eq_of_probe {slot : Fin tlbSlots} (h : b.probe a = some slot.val) :
    b.translate a = (b.slots.get slot).lo.translate a := by
  rw [translate_eq_bind_probe, h]
  simp [Vector.get_eq_getElem]

/-- Both look-ups find the lowest slot that supplies the address, whatever the slots hold. -/
theorem looksUp (b : TlbBuffer) (a : VirtualAddress) : b.LooksUp a := by
  have htranslate (slot : Fin tlbSlots) (h : b.probe a = some slot.val) :
      ∃ frame pa : PhysicalAddress,
        frame.val = (b.slots.get slot).lo.bits.toNat / pageSize * pageSize ∧
        frame.add a.pageOffset = .ok pa ∧ b.translate a = some pa := by
    obtain ⟨slot', hslot, hsupplies, -⟩ := probe_eq_some_iff.1 h
    obtain rfl : slot' = slot := Fin.ext hslot
    have hvalid := PageEntry.isValid_iff_testBit.2 hsupplies.1
    obtain ⟨pa, hsum, hpa⟩ := PageEntry.translate_eq_add hvalid a
    exact ⟨_, pa, PageEntry.toNat_frameBits, hsum, (translate_eq_of_probe h).trans hpa⟩
  refine ⟨probe_eq_none_iff, fun i => probe_eq_some_iff, ⟨fun hmiss => ?_, fun hmiss => ?_⟩,
    htranslate⟩
  · cases hprobe : b.probe a with
    | none => rfl
    | some i =>
      obtain ⟨slot, rfl, -⟩ := probe_eq_some_iff.1 hprobe
      obtain ⟨-, pa, -, -, hpa⟩ := htranslate slot hprobe
      rw [hmiss] at hpa
      cases hpa
  · rw [translate_eq_bind_probe, hmiss]
    rfl

end TlbBuffer

/-! ## Entries made for a page -/

namespace PageFlags

theorem proper_ofBits (w : UInt32) : (ofBits w).Proper := by
  unfold Proper ofBits
  rw [UInt32.and_assoc, UInt32.and_self]

theorem proper_union {f g : PageFlags} (hf : f.Proper) (hg : g.Proper) : (f.union g).Proper := by
  have hunion : ofBits (f.bits ||| g.bits) = (ofBits f.bits).union (ofBits g.bits) :=
    congrArg PageFlags.mk (PageEntry.or_and_distrib ..)
  unfold Proper
  rw [union, hunion, hf, hg, union]

/-- What a mask keeps of proper flags. -/
theorem Proper.bits_and {f : PageFlags} (h : f.Proper) (m : UInt32) :
    f.bits &&& m = f.bits &&& (0xF00 &&& m) := by
  have hbits : f.bits &&& 0xF00 = f.bits := congrArg bits h
  rw [← UInt32.and_assoc, hbits]

end PageFlags

theorem TlbEntry.decodes_forPage (a : VirtualAddress) {frame : PhysicalAddress} {flags : PageFlags}
    (hframe : frame.isPageAligned = true) (hflags : flags.Proper) :
    ∃ lo, PageEntry.map frame flags = .ok lo ∧ (forPage a lo).Decodes a frame flags := by
  refine ⟨_, PageEntry.map_of_aligned hframe flags, ?_⟩
  have hread : PageEntry.flags ⟨frame.toWord &&& PageEntry.frameMask ||| flags.bits⟩ = flags := by
    unfold PageEntry.flags PageFlags.ofBits
    rw [PageEntry.and_mask_of_flags _ _ (by decide)]
    exact hflags
  have hplace : PageEntry.frameBits ⟨frame.toWord &&& PageEntry.frameMask ||| flags.bits⟩ =
      frame.toWord := by
    have hnone : flags.bits &&& PageEntry.frameMask = 0 := by
      rw [hflags.bits_and]
      exact UInt32.and_zero
    unfold PageEntry.frameBits
    rw [PageEntry.and_mask_of_frame _ _ (by decide), hnone, UInt32.or_zero,
      toWord_and_frameMask hframe]
  constructor
  · exact EntryHi.page_ofAddress a
  · have hpid : a.toWord &&& EntryHi.pageMask &&& EntryHi.pidMask = 0 := by
      rw [UInt32.and_assoc]
      exact UInt32.and_zero
    unfold forPage EntryHi.ofAddress EntryHi.pid
    rw [hpid]
    decide
  · exact hread
  · unfold forPage PageEntry.frame? PageEntry.isValid
    rw [hread, hplace, Address.ofWord_toWord]

/-- The look-ups of the TLB agree for all that its slots may hold, a TLB that was invalidated finds
nothing, and the entry for a page is read back as what it was made of. -/
theorem tlb_lookups_agree :
    (∀ (b : TlbBuffer) (a : VirtualAddress), b.LooksUp a) ∧
    (∀ (b : TlbBuffer) (on : Bool) (a : VirtualAddress),
      TlbBuffer.probe (TlbDevice.flush b on) a = none ∧
      TlbBuffer.translate (TlbDevice.flush b on) a = none) ∧
    ∀ (a : VirtualAddress) (frame : PhysicalAddress) (flags : PageFlags),
      frame.isPageAligned = true → flags.Proper →
      ∃ lo, PageEntry.map frame flags = .ok lo ∧ (TlbEntry.forPage a lo).Decodes a frame flags :=
  ⟨TlbBuffer.looksUp,
    fun b on a => ⟨TlbBuffer.probe_of_invalid (b.get_slots_flush on) a,
      TlbBuffer.translate_of_invalid (b.get_slots_flush on) a⟩,
    fun a _ _ hframe hflags => TlbEntry.decodes_forPage a hframe hflags⟩

/-- The entry of the last byte of the address range, for the last frame, read-only and past the data
cache; the flags were taken in part from a word with other bits. -/
theorem tlb_entry_of_last_page : ∃ lo,
    PageEntry.map ⟨0xFFFFF000, by decide⟩ (.union (.mapped false) (.ofBits 0xFFFFF8FF)) = .ok lo ∧
    (TlbEntry.forPage ⟨0xFFFFFFFF, by decide⟩ lo).Decodes ⟨0xFFFFFFFF, by decide⟩
      ⟨0xFFFFF000, by decide⟩ ⟨0xA00⟩ := by
  obtain ⟨-, -, hdecodes⟩ := tlb_lookups_agree
  exact hdecodes ⟨0xFFFFFFFF, by decide⟩ ⟨0xFFFFF000, by decide⟩ _ rfl
    (PageFlags.proper_union rfl (PageFlags.proper_ofBits _))

end SoftPaging
