import Mathlib
import SoftPaging.Proofs.Space.Deciding
import SoftPaging.Proofs.Space.Residency
import SoftPaging.Proofs.Tlb.Buffer

/-!
# Pages that were brought in

What faults make of an address space can be told without the frames: which pages are resident and with
which flags, which second-level tables are there, which byte is at each address, and how many frames are
free. `AddressSpace.Brings` tells it from the set of pages that were brought in since, and so says
nothing of the order: pages that were not resident are mapped with the permission in force and filled
with zeros, and nothing else is different. Sets add up (`Brings.trans`), a fault that is serviced brings
in the page of its address, and one that is refused nothing (`serviceFault_brings`).
-/

namespace SoftPaging

open Outcome

variable {k k' : Kernel} {p : FramePool} {m : TableMap} {rest : List Block}
  {ram ram' ram'' ram₁ ram₂ : Ram} {a : VirtualAddress}

/-- The elements of a set, and those of another that a stronger condition leaves over. -/
theorem card_filter_union {α : Type} [DecidableEq α] {S T : Finset α} {P Q : α → Prop}
    [DecidablePred P] [DecidablePred Q] (h : ∀ a ∈ T, Q a ↔ P a ∧ a ∉ S) :
    ((S ∪ T).filter P).card = (S.filter P).card + (T.filter Q).card := by
  have hsplit : (S ∪ T).filter P = S.filter P ∪ T.filter Q := by
    ext a
    have ha := h a
    simp only [Finset.mem_filter, Finset.mem_union]
    tauto
  rw [hsplit, Finset.card_union_of_disjoint]
  rw [Finset.disjoint_left]
  intro a ha hQ
  obtain ⟨hT, hQ⟩ := Finset.mem_filter.1 hQ
  exact ((h a hT).1 hQ).2 (Finset.mem_filter.1 ha).1

namespace PageTable

variable {t : PageTable} {pages pages' : Finset VirtualAddress}

/-- The byte that is found at an address, if its page is resident. -/
def byteIn (t : PageTable) (ram : Ram) (a : VirtualAddress) : Option UInt8 :=
  ((t.entryIn ram a).translate a).map fun pa => ram.byte pa.val

theorem Held.byteIn_eq (h : t.Held k p m rest) (a : VirtualAddress) :
    t.byteIn k.ram a = m.image k.ram a := by
  obtain ⟨o, hrun, himage⟩ := h.translate_image a
  obtain ⟨rfl, -⟩ := Outcome.done.inj (hrun.symm.trans (h.run_translate_entryIn a))
  exact himage

/-- How many frames it takes to bring in the pages: one for each that is not resident, and one for each
second-level table that is missing. -/
def needs (t : PageTable) (ram : Ram) (pages : Finset VirtualAddress) : Nat :=
  (pages.filter fun a => (t.entryIn ram a).isValid = false).card +
    ((pages.image (·.directoryIndex)).filter fun n => (t.slotIn ram n).isSome = false).card

theorem needs_mono (h : pages ⊆ pages') : t.needs ram pages ≤ t.needs ram pages' :=
  Nat.add_le_add (Finset.card_le_card (Finset.filter_subset_filter _ h))
    (Finset.card_le_card (Finset.filter_subset_filter _ (Finset.image_subset_image h)))

/-- At worst none of the pages is resident, and none of their second-level tables is there. -/
theorem needs_le (t : PageTable) (ram : Ram) (pages : Finset VirtualAddress) :
    t.needs ram pages ≤ pages.card + (pages.image (·.directoryIndex)).card :=
  Nat.add_le_add (Finset.card_filter_le _ _) (Finset.card_filter_le _ _)

/-- A page that is resident has a second-level table. -/
theorem isSome_slotIn_of_isValid (h : (t.entryIn ram a).isValid = true) :
    (t.slotIn ram a.directoryIndex).isSome = true := by
  unfold entryIn at h
  cases hslot : t.slotIn ram a.directoryIndex with
  | some leaf => rfl
  | none =>
    have hempty : PageEntry.empty.isValid = true := by rwa [hslot] at h
    rw [PageEntry.isValid_empty] at hempty
    cases hempty

/-- One page needs what it takes to map it. -/
theorem needs_singleton (t : PageTable) (ram : Ram) (a : VirtualAddress) :
    t.needs ram {a.pageBase} = t.need ram a := by
  have hdirectory : a.pageBase.directoryIndex = a.directoryIndex :=
    (Address.pageBase_eq_iff.1 a.pageBase_pageBase).1
  unfold needs need
  rw [Finset.image_singleton, Finset.filter_singleton, Finset.filter_singleton, entryIn_pageBase,
    hdirectory]
  cases hvalid : (t.entryIn ram a).isValid with
  | true => simp [isSome_slotIn_of_isValid hvalid]
  | false => cases (t.slotIn ram a.directoryIndex).isSome <;> rfl

namespace Supplied

variable {writable : Bool} {e : PageEntry}

/-- A page that was resident keeps its flags, and one that was not has the permission asked for. -/
theorem flags_entryIn (ht : t.Held k p m rest) (h : t.Supplied p rest k m a writable e k') :
    (t.entryIn k'.ram a).flags =
      if (t.entryIn k.ram a).isValid = false then .mapped writable else (t.entryIn k.ram a).flags := by
  rw [h.entryIn_eq ht, ht.shows.entryIn_eq, isValid_entryOf]
  cases h with
  | resident hpg hram =>
    simp only [hpg, Option.isSome_some, Bool.true_eq_false, if_false, entryOf_some]
  | placed hl hpg hf h =>
    simp only [TableMap.page_of_slot hl, hpg, Option.isSome_none, if_true, Page.flags_entry]
  | opened hi hg hf h =>
    simp only [TableMap.page_of_closed hi, Option.isSome_none, if_true, Page.flags_entry]

/-- No other page has another entry. -/
theorem entryIn_of_ne (ht : t.Held k p m rest) (h : t.Supplied p rest k m a writable e k')
    {b : VirtualAddress} (hb : b.pageBase ≠ a.pageBase) :
    t.entryIn k'.ram b = t.entryIn k.ram b := by
  cases h with
  | resident hpg hram => rw [hram]
  | placed hl hpg hf h => exact h.entryIn_of_ne ht (fun j => (TableMap.page_of_slot hl j).symm) hb
  | opened hi hg hf h => exact h.entryIn_of_ne ht (fun j => (TableMap.page_of_closed hi j).symm) hb

/-- No other slot has another second-level table. -/
theorem slotIn_of_ne (ht : t.Held k p m rest) (h : t.Supplied p rest k m a writable e k')
    {n : Fin directorySlots} (hn : n ≠ a.directoryIndex) : t.slotIn k'.ram n = t.slotIn k.ram n := by
  cases h with
  | resident hpg hram => rw [hram]
  | placed hl hpg hf h => exact h.slotIn_of_ne ht hn
  | opened hi hg hf h => exact h.slotIn_of_ne ht hn

theorem isValid_entryIn (ht : t.Held k p m rest) (h : t.Supplied p rest k m a writable e k') :
    (t.entryIn k'.ram a).isValid = true := by
  rw [h.entryIn_eq ht]
  cases h with
  | resident hpg hram => exact Page.isValid_entry _
  | placed hl hpg hf h => exact Page.isValid_entry _
  | opened hi hg hf h => exact Page.isValid_entry _

end Supplied

/-- Nothing of a page table looks different but the frames it lies in, and as many frames are free. -/
structure LooksSame (t : PageTable) (p : FramePool) (ram ram' : Ram) : Prop where
  flags_eq : ∀ a, (t.entryIn ram a).flags = (t.entryIn ram' a).flags
  slot_iff : ∀ n, (t.slotIn ram n).isSome = true ↔ (t.slotIn ram' n).isSome = true
  byte_eq : ∀ a, t.byteIn ram a = t.byteIn ram' a
  freeFrames_eq : p.freeFrames ram = p.freeFrames ram'

end PageTable

namespace AddressSpace

variable {s : AddressSpace} {pages pages' : Finset VirtualAddress} {writable : Bool}

/-- Since RAM was `ram` these pages were brought into the space, each given by its first address, and
nothing of it looks different otherwise. -/
structure Brings (s : AddressSpace) (p : FramePool) (ram : Ram) (pages : Finset VirtualAddress)
    (ram' : Ram) : Prop where
  page_base : ∀ a ∈ pages, a.pageBase = a
  flags_eq : ∀ a, (s.table.entryIn ram' a).flags =
    if a.pageBase ∈ pages ∧ (s.table.entryIn ram a).isValid = false then
      .mapped ((s.grants a).getD false)
    else (s.table.entryIn ram a).flags
  slot_iff : ∀ n, (s.table.slotIn ram' n).isSome = true ↔
    (s.table.slotIn ram n).isSome = true ∨ n ∈ pages.image (·.directoryIndex)
  byte_eq : ∀ a, s.table.byteIn ram' a =
    if a.pageBase ∈ pages then some ((s.table.byteIn ram a).getD 0) else s.table.byteIn ram a
  freeFrames_eq : p.freeFrames ram = p.freeFrames ram' + s.table.needs ram pages

namespace Brings

theorem isValid_iff (h : s.Brings p ram pages ram') (a : VirtualAddress) :
    (s.table.entryIn ram' a).isValid = true ↔
      (s.table.entryIn ram a).isValid = true ∨ a.pageBase ∈ pages := by
  rw [PageEntry.isValid, h.flags_eq a]
  split
  · next hbrought =>
    exact ⟨fun _ => .inr hbrought.1, fun _ => PageFlags.contains_valid_mapped _⟩
  · next hkept =>
    refine ⟨.inl, fun hor => hor.elim id fun hpage => ?_⟩
    by_contra hinvalid
    exact hkept ⟨hpage, Bool.eq_false_iff.2 hinvalid⟩

/-- What the pages need after others were brought in is what they need besides. -/
theorem needs_union (h : s.Brings p ram pages ram') (hbase : ∀ a ∈ pages', a.pageBase = a) :
    s.table.needs ram (pages ∪ pages') = s.table.needs ram pages + s.table.needs ram' pages' := by
  -- A page, and a second-level table, is missing still if it was missing and was not brought in.
  have hresident : ∀ a ∈ pages', (s.table.entryIn ram' a).isValid = false ↔
      (s.table.entryIn ram a).isValid = false ∧ a ∉ pages := by
    intro a ha
    rw [← Bool.not_eq_true, ← Bool.not_eq_true, h.isValid_iff, hbase a ha, not_or]
  have hopen : ∀ n ∈ pages'.image (·.directoryIndex), (s.table.slotIn ram' n).isSome = false ↔
      (s.table.slotIn ram n).isSome = false ∧ n ∉ pages.image (·.directoryIndex) := by
    intro n _
    rw [← Bool.not_eq_true, ← Bool.not_eq_true, h.slot_iff, not_or]
  unfold PageTable.needs
  rw [Finset.image_union, card_filter_union hresident, card_filter_union hopen]
  exact Nat.add_add_add_comm ..

theorem refl (s : AddressSpace) (p : FramePool) (ram : Ram) : s.Brings p ram ∅ ram where
  page_base a ha := absurd ha (Finset.notMem_empty a)
  flags_eq a := (if_neg fun h => absurd h.1 (Finset.notMem_empty _)).symm
  slot_iff n := by simp
  byte_eq a := (if_neg (Finset.notMem_empty _)).symm
  freeFrames_eq := rfl

theorem trans (h : s.Brings p ram pages ram') (h' : s.Brings p ram' pages' ram'') :
    s.Brings p ram (pages ∪ pages') ram'' where
  page_base a ha := (Finset.mem_union.1 ha).elim (h.page_base a) (h'.page_base a)
  flags_eq a := by
    have hvalid := h.isValid_iff a
    rw [h'.flags_eq, h.flags_eq]
    simp only [← Bool.not_eq_true, hvalid, Finset.mem_union]
    by_cases hpage : a.pageBase ∈ pages
    · simp only [hpage, or_true, not_true_eq_false, and_false, if_false, true_or]
    · simp only [hpage, or_false, false_and, if_false, false_or]
  slot_iff n := by
    rw [h'.slot_iff, h.slot_iff, Finset.image_union, Finset.mem_union, or_assoc]
  byte_eq a := by
    rw [h'.byte_eq, h.byte_eq]
    by_cases hpage : a.pageBase ∈ pages
    · simp [hpage]
    · simp [hpage]
  freeFrames_eq := by
    rw [h.freeFrames_eq, h'.freeFrames_eq, h.needs_union h'.page_base]
    omega

/-- Spaces into which the same pages were brought look the same. -/
theorem looksSame (h₁ : s.Brings p ram pages ram₁) (h₂ : s.Brings p ram pages ram₂) :
    s.table.LooksSame p ram₁ ram₂ where
  flags_eq a := by rw [h₁.flags_eq, h₂.flags_eq]
  slot_iff n := by rw [h₁.slot_iff, h₂.slot_iff]
  byte_eq a := by rw [h₁.byte_eq, h₂.byte_eq]
  freeFrames_eq := Nat.add_right_cancel (h₁.freeFrames_eq.symm.trans h₂.freeFrames_eq)

end Brings

/-! ## What a fault brings in -/

variable {e : PageEntry}

/-- A page that was mapped on demand was brought in. -/
theorem brings_of_supplied (hs : s.Sound) (ht : s.table.Held k p m rest)
    (hgrants : s.grants a = some writable)
    (hsupplied : s.table.Supplied p rest k m a writable e k')
    (hbecomes : s.table.Becomes p rest k
      ((m.image k.ram).fill a.directoryIndex.val a.tableIndex.val) k') :
    s.Brings p k.ram {a.pageBase} k'.ram where
  page_base b hb := by
    rw [Finset.mem_singleton.1 hb]
    exact a.pageBase_pageBase
  flags_eq b := by
    simp only [Finset.mem_singleton]
    -- An address of the page has the entry of `a`, and is granted what `a` is.
    by_cases hb : b.pageBase = a.pageBase
    · have hentry (ram : Ram) : s.table.entryIn ram b = s.table.entryIn ram a := by
        rw [← s.table.entryIn_pageBase, hb, s.table.entryIn_pageBase]
      have hgrants' : s.grants b = some writable := by
        rw [← hs.grants_pageBase, hb, hs.grants_pageBase, hgrants]
      rw [hentry, hentry, hsupplied.flags_entryIn ht, hgrants', Option.getD_some]
      simp only [hb, true_and]
    · rw [hsupplied.entryIn_of_ne ht hb, if_neg fun h => hb h.1]
  slot_iff n := by
    rw [Finset.image_singleton, Finset.mem_singleton,
      (Address.pageBase_eq_iff.1 a.pageBase_pageBase).1]
    by_cases hn : n = a.directoryIndex
    · have hopen := PageTable.isSome_slotIn_of_isValid (hsupplied.isValid_entryIn ht)
      rw [hn]
      exact ⟨fun _ => .inr rfl, fun _ => hopen⟩
    · rw [hsupplied.slotIn_of_ne ht hn, or_iff_left hn]
  byte_eq b := by
    obtain ⟨m', ht', -, himage⟩ := hbecomes
    rw [ht'.byteIn_eq, himage, ht.byteIn_eq]
    simp only [Image.fill, Finset.mem_singleton, Address.pageBase_eq_iff, Fin.ext_iff]
  freeFrames_eq := by
    rw [PageTable.needs_singleton, ht.shows.need_eq]
    exact hsupplied.freeFrames_eq ht

/-- When only spare frames were written to, nothing was brought in. -/
theorem brings_of_spare (ht : s.table.Held k p m rest) (ht' : s.table.Held k' p m rest)
    (htouches : Kernel.Touches p (p.spare (s.table.blocks m ++ rest)) k k') :
    s.Brings p k.ram ∅ k'.ram where
  page_base a ha := absurd ha (Finset.notMem_empty a)
  flags_eq a := by
    rw [ht'.shows.entryIn_eq, ht.shows.entryIn_eq, if_neg fun h => Finset.notMem_empty _ h.1]
  slot_iff n := by
    rw [ht'.shows.slotIn_eq, ht.shows.slotIn_eq, Finset.image_empty]
    exact (or_iff_left (Finset.notMem_empty n)).symm
  byte_eq a := by
    obtain ⟨m', hm', -, himage⟩ := ht.becomes_of_spare ht' htouches
    rw [hm'.byteIn_eq, himage, ht.byteIn_eq, if_neg (Finset.notMem_empty _)]
  freeFrames_eq := PageTable.Held.freeFrames_of_perm [] ht ht' (List.Perm.refl _)

end AddressSpace

/-- A fault that is serviced brings in the page of its address, and one that is refused nothing. -/
theorem serviceFault_brings {τ : Type} [TlbDevice τ] {s : AddressSpace} (hs : s.Sound)
    (ht : s.table.Held k p m rest) (code : Nat) (a : VirtualAddress) (mmu : Mmu τ) :
    ((serviceFault (some s) code a mmu).run k).Meets
      (fun _ k' => faultRefusal? p k.ram (some s) code a = none ∧
        s.Brings p k.ram {a.pageBase} k'.ram)
      (fun cause k' => faultRefusal? p k.ram (some s) code a = some cause ∧
        s.Brings p k.ram ∅ k'.ram) never := by
  refine ((serviceFault_supplies hs ht code a mmu).and (serviceFault_meets hs ht code a mmu)).mono
    ?_ ?_ fun _ hH => hH.1
  · rintro _ k' ⟨⟨hnone, writable, e, hgrants, hsupplied, -⟩, _, _, -, hmaps, -⟩
    exact ⟨hnone, AddressSpace.brings_of_supplied hs ht hgrants hsupplied hmaps.becomes⟩
  · rintro cause k' ⟨hcause, hrefused⟩
    exact ⟨hcause, AddressSpace.brings_of_spare ht hrefused.held hrefused.touches⟩

end SoftPaging
