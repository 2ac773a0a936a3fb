import Mathlib
import SoftPaging.Proofs.Paging.Copying
import SoftPaging.Proofs.Paging.Image

/-!
# Operations on page tables and images

Each operation on a table that is held leaves the frames of everybody else alone and shows the image
that its counterpart on images says; `PageTable.Becomes` puts the two together. This is all that the
operations on address spaces, and the clients of both, need to know of a page table.
-/

namespace SoftPaging

open Outcome

variable {t u : PageTable} {k k' k'' : Kernel} {p : FramePool} {m m' n : TableMap}
  {rest live : List Block} {i : Fin directorySlots} {j : Fin tableEntries} {l : Leaf} {f : Nat}

/-- The map `m'` is `m` with a page at one position. A page that was there is kept; one that was not
has this permission. No slot was opened but that of the page. -/
structure TableMap.Maps (m : TableMap) (i : Fin directorySlots) (j : Fin tableEntries)
    (writable : Bool) (m' : TableMap) : Prop where
  slots : ∀ i', i' ≠ i → m' i' = m i'
  mapped : ∃ f, m'.page i j = some ((m.page i j).getD ⟨f, writable⟩)
  kept : ∀ i' j', ¬ (i' = i ∧ j' = j) → m'.page i' j' = m.page i' j'

theorem TableMap.Maps.congr {writable : Bool} (h : n.Maps i j writable m')
    (hslot : ∀ i', i' ≠ i → n i' = m i') (hpage : ∀ i j, n.page i j = m.page i j) :
    m.Maps i j writable m' where
  slots i' hne := (h.slots i' hne).trans (hslot i' hne)
  mapped := by
    rw [← hpage]
    exact h.mapped
  kept i' j' hne := by
    rw [← hpage]
    exact h.kept i' j' hne

/-- Mapping a page that is there changes nothing. -/
theorem TableMap.maps_of_mapped {pg : Page} (h : m.page i j = some pg) (writable : Bool) :
    m.Maps i j writable m where
  slots _ _ := rfl
  mapped := by
    refine ⟨0, ?_⟩
    rw [h]
    rfl
  kept _ _ _ := rfl

theorem TableMap.maps_setPage (hl : m i = some l) (hpg : l.pages j = none) (f : Nat)
    (writable : Bool) :
    m.Maps i j writable (m.setSlot i (some (l.setPage j (some ⟨f, writable⟩)))) where
  slots _ hne := m.setSlot_of_ne _ hne
  mapped := by
    refine ⟨f, ?_⟩
    rw [m.page_setPage hl, if_pos ⟨rfl, rfl⟩, TableMap.page_of_slot hl, hpg]
    rfl
  kept i' j' hne := by rw [m.page_setPage hl, if_neg hne]

theorem TableMap.Maps.frameCount_le {writable : Bool} (h : m.Maps i j writable m') :
    frameCount m'.blocks ≤ frameCount m.blocks + 2 :=
  frameCount_le_add_two (fun i' hne hsome => by rwa [← h.slots i' hne])
    fun i' j' hne hsome => by rwa [← h.kept i' j' hne]

/-! ## Operations and images -/

namespace PageTable

/-- After an operation the page table is held still and shows the image, and the frames of the others
are as they were. -/
def Becomes (t : PageTable) (p : FramePool) (rest : List Block) (k : Kernel) (im : Image)
    (k' : Kernel) : Prop :=
  ∃ m', t.Held k' p m' rest ∧ k.ram.SameBlocks k'.ram rest ∧ m'.image k'.ram = im

/-- An operation on the table, which showed `m` before, wrote to the tables themselves and to frames
that were spare, and to no other. -/
abbrev Confined (t : PageTable) (p : FramePool) (m : TableMap) (rest : List Block) (k k' : Kernel) :
    Prop := Kernel.Touches p (t.skeleton m ∪ p.spare (t.blocks m ++ rest)) k k'

/-- After an operation a page is mapped at a position of the table, which showed `m` before, and the
entry of the page is `e`. -/
structure MapsPage (t : PageTable) (p : FramePool) (rest : List Block) (k : Kernel) (m : TableMap)
    (i : Fin directorySlots) (j : Fin tableEntries) (writable : Bool) (e : PageEntry)
    (k' : Kernel) : Prop where
  becomes : t.Becomes p rest k ((m.image k.ram).fill i.val j.val) k'
  maps : m.Maps i j writable (t.mapIn k'.ram)
  entry_eq : e = entryOf ((t.mapIn k'.ram).page i j)
  confined : t.Confined p m rest k k'

theorem Becomes.same {im : Image} (h : t.Becomes p rest k im k') : k.ram.SameBlocks k'.ram rest := by
  obtain ⟨-, -, hsame, -⟩ := h
  exact hsame

theorem run_slotNumbered_of_le {slot : Nat} (h : t.Held k p m rest) (hslot : directorySlots ≤ slot) :
    (t.slotNumbered slot).run k = .halted (.indexOutOfBounds directorySlots slot) := by
  have hindex : checkedIndex directorySlots slot =
      .error (.indexOutOfBounds directorySlots slot) := dif_neg (Nat.not_lt.2 hslot)
  unfold slotNumbered
  rw [Transition.run_bind, h.run_reachDirectory, andThen_done, hindex]
  rfl

/-- One operation after another. -/
theorem Becomes.trans {im im' : Image} (h : t.Becomes p rest k im k')
    (h' : ∀ m, t.Held k' p m rest → m.image k'.ram = im → t.Becomes p rest k' im' k'') :
    t.Becomes p rest k im' k'' := by
  obtain ⟨m, hheld, hsame, himage⟩ := h
  obtain ⟨m', hheld', hsame', himage'⟩ := h' m hheld himage
  exact ⟨m', hheld', hsame.trans hsame', himage'⟩

theorem Becomes.congr {im : Image} (h : t.Becomes p rest k im k') (hram : k.ram = k''.ram) :
    t.Becomes p rest k'' im k' := by
  obtain ⟨m, hheld, hsame, himage⟩ := h
  rw [hram] at hsame
  exact ⟨m, hheld, hsame, himage⟩

theorem Becomes.push {im : Image} (h : t.Becomes p rest k im k') (e : Event) :
    t.Becomes p rest k im (k'.push e) := by
  obtain ⟨m, hheld, hsame, himage⟩ := h
  exact ⟨m, hheld.push e, hsame, himage⟩

theorem Held.perm {rest' : List Block} (h : t.Held k p m rest) (hperm : rest.Perm rest') :
    t.Held k p m rest' :=
  ⟨h.shows, h.holds.perm (hperm.append_left _)⟩

theorem Becomes.perm {im : Image} {rest' : List Block} (h : t.Becomes p rest k im k')
    (hperm : rest.Perm rest') : t.Becomes p rest' k im k' := by
  obtain ⟨m, hheld, hsame, himage⟩ := h
  refine ⟨m, hheld.perm hperm, hsame.mono fun f hf => ?_, himage⟩
  rwa [framesOf_perm hperm]

theorem MapsPage.congr {writable : Bool} {e : PageEntry}
    (h : t.MapsPage p rest k m i j writable e k') (hram : k.ram = k''.ram)
    (htouches : Kernel.Touches p ∅ k'' k) : t.MapsPage p rest k'' m i j writable e k' := by
  have hbecomes := h.becomes.congr hram
  rw [hram] at hbecomes
  exact ⟨hbecomes, h.maps, h.entry_eq, (htouches.mono (Set.empty_subset _)).trans h.confined⟩

theorem MapsPage.push {writable : Bool} {e : PageEntry}
    (h : t.MapsPage p rest k m i j writable e k') (line : Event) :
    t.MapsPage p rest k m i j writable e (k'.push line) :=
  ⟨h.becomes.push line, h.maps, h.entry_eq, h.confined.trans (Kernel.Touches.push p _ k' line)⟩

namespace MapsPage

variable {writable : Bool} {e : PageEntry}

theorem shows (h : t.MapsPage p rest k m i j writable e k') :
    t.Shows k'.ram (t.mapIn k'.ram) := by
  obtain ⟨m', hheld, -⟩ := h.becomes
  rw [hheld.shows.mapIn_eq]
  exact hheld.shows

/-- The entry that is answered is the one that is found afterwards. -/
theorem entryIn_eq {a : VirtualAddress}
    (h : t.MapsPage p rest k m a.directoryIndex a.tableIndex writable e k') :
    t.entryIn k'.ram a = e := by
  rw [h.shows.entryIn_eq, h.entry_eq]

theorem isValid (h : t.MapsPage p rest k m i j writable e k') : e.isValid = true := by
  obtain ⟨f, hmapped⟩ := h.maps.mapped
  rw [h.entry_eq, hmapped, entryOf_some]
  exact Page.isValid_entry _

/-- A page that was not resident is writable as was asked for. -/
theorem isDirty_of_none (h : t.MapsPage p rest k m i j writable e k') (hnone : m.page i j = none) :
    e.isDirty = writable := by
  obtain ⟨f, hmapped⟩ := h.maps.mapped
  rw [h.entry_eq, hmapped, hnone, Option.getD_none, entryOf_some, Page.isDirty_entry]

/-- Pages that were resident keep their entries. -/
theorem entryIn_of_valid (h : t.MapsPage p rest k m i j writable e k') (hm : t.Shows k.ram m)
    {a : VirtualAddress} (hvalid : (t.entryIn k.ram a).isValid = true) :
    t.entryIn k'.ram a = t.entryIn k.ram a := by
  rw [hm.entryIn_eq] at hvalid
  rw [h.shows.entryIn_eq, hm.entryIn_eq]
  by_cases hat : a.directoryIndex = i ∧ a.tableIndex = j
  · obtain ⟨rfl, rfl⟩ := hat
    obtain ⟨f, hmapped⟩ := h.maps.mapped
    cases hpg : m.page a.directoryIndex a.tableIndex with
    | none =>
      rw [hpg, entryOf_none, PageEntry.isValid_empty] at hvalid
      cases hvalid
    | some pg => rw [hmapped, hpg, Option.getD_some]
  · rw [h.maps.kept _ _ hat]

end MapsPage

/-- A map is still shown when its blocks are the same. -/
theorem Shows.of_sameBlocks {ram ram' : Ram} (h : t.Shows ram m)
    (hsame : ram.SameBlocks ram' (t.blocks m ++ rest)) : t.Shows ram' m :=
  h.congr fun f hf => hsame f (mem_framesOf_append.2 (.inl (t.skeleton_subset m hf)))

namespace Held

theorem unchanged (h : t.Held k p m rest) : t.Becomes p rest k (m.image k.ram) k :=
  ⟨m, h, Ram.SameBlocks.refl _ _, rfl⟩

theorem logged (h : t.Held k p m rest) (e : Event) :
    t.Becomes p rest k (m.image k.ram) (k.push e) :=
  ⟨m, h.push e, Ram.SameBlocks.refl _ _, rfl⟩

theorem image_of_sameBlocks {ram : Ram} (h : t.Held k p m rest)
    (hsame : k.ram.SameBlocks ram (t.blocks m ++ rest)) : m.image ram = m.image k.ram :=
  TableMap.image_congr (fun _ _ => rfl) fun _ _ _ hpg => hsame _ (h.page_mem hpg)

/-- What an operation writes when it keeps to the tables and to spare frames. -/
theorem sameBlocks {F : Set Nat} (h : t.Held k p m rest) (htouches : Kernel.Touches p F k k')
    (hF : F ⊆ t.skeleton m ∪ p.spare (t.blocks m ++ rest)) : k.ram.SameBlocks k'.ram rest :=
  h.holds.sameBlocks htouches (hF.trans (Set.union_subset_union_left _ (t.skeleton_subset m)))

/-- Writing to spare frames only changes nothing that is shown. -/
theorem becomes_of_spare (h : t.Held k p m rest) (h' : t.Held k' p m rest)
    (htouches : Kernel.Touches p (p.spare (t.blocks m ++ rest)) k k') :
    t.Becomes p rest k (m.image k.ram) k' := by
  have hsame := h.holds.sameBlocks_of_spare htouches
  exact ⟨m, h', hsame.mono fun f hf => mem_framesOf_append.2 (.inr hf), h.image_of_sameBlocks hsame⟩

theorem run_translate_entryIn (h : t.Held k p m rest) (a : VirtualAddress) :
    (t.translate a).run k = .done ((t.entryIn k.ram a).translate a) k := by
  rw [h.run_translate, h.shows.entryIn_eq]

/-- Reading at a translated address shows the image. -/
theorem translate_image (h : t.Held k p m rest) (a : VirtualAddress) :
    ∃ o, (t.translate a).run k = .done o k ∧
      o.map (fun pa => k.ram.byte pa.val) = m.image k.ram a := by
  refine ⟨_, h.run_translate a, ?_⟩
  unfold TableMap.image
  cases hpg : m.page a.directoryIndex a.tableIndex with
  | none => rfl
  | some pg =>
    obtain ⟨pa, htranslate, hval⟩ := pg.translate_entry (h.holds.frame_lt (h.page_mem hpg)) a
    rw [entryOf_some, htranslate, Option.map_some, Option.map_some, hval]

/-- Opening a slot shows no page that was not there. -/
theorem openSlot_becomes (h : t.Held k p m rest) (slot : Nat) :
    ((t.openSlot slot).run k).Meets
      (fun _ k' => t.Becomes p rest k (m.image k.ram) k' ∧ t.Confined p m rest k k')
      (fun cause k' => cause = .outOfMemory ∧ k' = k.push (.noRun 1))
      (fun cause => cause = .indexOutOfBounds directorySlots slot) := by
  rcases Nat.lt_or_ge slot directorySlots with hslot | hslot
  · obtain ⟨i, rfl⟩ : ∃ i : Fin directorySlots, i.val = slot := ⟨⟨slot, hslot⟩, rfl⟩
    cases hl : m i with
    | some l =>
      rw [h.run_openSlot_of_open hl]
      exact .done ⟨h.unchanged, Kernel.Touches.refl p _ k⟩
    | none =>
      rcases p.spare_cases (t.blocks m ++ rest) with hnone | ⟨f, hf⟩
      · rw [h.run_openSlot_exhausted hl hnone]
        exact .refused ⟨rfl, rfl⟩
      · rw [h.run_openSlot hl hf]
        have htouches : Kernel.Touches p {t.frame, f} k (t.afterOpenSlot p i f k) :=
          h.touches_openSlot hf (by simp) (by simp)
        have hframes : {t.frame, f} ⊆ t.skeleton m ∪ p.spare (t.blocks m ++ rest) :=
          Set.pair_subset (.inl (.inl rfl)) (.inr hf.1)
        refine .done ⟨⟨_, h.openSlot hl hf, h.sameBlocks htouches hframes, ?_⟩,
          htouches.mono hframes⟩
        exact TableMap.image_congr (fun i' j => by rw [m.page_setSlot_vacant hl f])
          fun _ _ _ hpg => h.page_sameFrame hpg htouches hframes
  · unfold PageTable.openSlot
    rw [Transition.run_bind, run_slotNumbered_of_le h hslot]
    exact .halted rfl

theorem ram_afterMapPage (p : FramePool) (i : Fin directorySlots) (l : Leaf) (j : Fin tableEntries)
    (pg : Page) (k : Kernel) : (afterMapPage p i l j pg k).ram =
      l.table.setEntryIn (k.lendCleared p pg.frame).ram j pg.entry := by
  unfold afterMapPage
  rw [Kernel.ram_push, Kernel.ram_mapRam]

/-- The frame of a page that was mapped is filled with zeros. -/
theorem byte_mapPage (h : t.Held k p m rest) (hl : m i = some l)
    (hf : IsLeast (p.spare (t.blocks m ++ rest)) f) (j : Fin tableEntries) (writable : Bool)
    {o : Nat} (ho : o < pageSize) :
    (afterMapPage p i l j ⟨f, writable⟩ k).ram.byte (f * pageSize + o) = 0 := by
  have hne : l.frame ≠ f := (h.holds.lend hf).ne_of_mem (h.leaf_mem hl)
  have hoff := EntryTable.sameOff_setEntryIn (k.lendCleared p f).ram
    (h.shows.leaf_shows i l hl).frame_lt j (Page.entry ⟨f, writable⟩)
  have hframe : (f * pageSize + o) / pageSize = f := by
    simp only [pageSize] at ho ⊢
    omega
  rw [ram_afterMapPage, hoff.byte_eq _ (by rw [hframe]; exact hne.symm),
    h.holds.byte_lendCleared hf hframe]

/-- A page that was mapped shows zeros. -/
theorem image_mapPage (h : t.Held k p m rest) (hl : m i = some l) (hpg : l.pages j = none)
    (hf : IsLeast (p.spare (t.blocks m ++ rest)) f) (writable : Bool) :
    (m.setSlot i (some (l.setPage j (some ⟨f, writable⟩)))).image
        (afterMapPage p i l j ⟨f, writable⟩ k).ram =
      (m.image k.ram).fill i.val j.val := by
  have hleaf : l.frame ∈ t.skeleton m := .inr ⟨i, l, hl, rfl⟩
  have htouches : Kernel.Touches p {l.frame, f} k (afterMapPage p i l j ⟨f, writable⟩ k) :=
    h.touches_mapPage hl hf j writable (by simp) (by simp)
  have hframes : {l.frame, f} ⊆ t.skeleton m ∪ p.spare (t.blocks m ++ rest) :=
    Set.pair_subset (.inl hleaf) (.inr hf.1)
  funext a
  have hpage := m.page_setPage hl j (some ⟨f, writable⟩) a.directoryIndex a.tableIndex
  unfold Image.fill
  by_cases hat : a.directoryIndex = i ∧ a.tableIndex = j
  · have hnone : m.page a.directoryIndex a.tableIndex = none := by
      rw [hat.1, hat.2, TableMap.page_of_slot hl, hpg]
    rw [if_pos hat] at hpage
    rw [if_pos ⟨congrArg Fin.val hat.1, congrArg Fin.val hat.2⟩,
      TableMap.image_of_not_resident hnone, TableMap.image_of_page hpage,
      h.byte_mapPage hl hf j writable a.pageOffset_lt]
    rfl
  · rw [if_neg hat] at hpage
    rw [if_neg fun hval => hat ⟨Fin.ext hval.1, Fin.ext hval.2⟩]
    exact TableMap.image_congr_at (congrArg _ hpage) fun _ hold =>
      h.page_sameFrame hold htouches hframes

/-- Filling a page that is resident changes nothing. -/
theorem image_fill_of_mapped {pg : Page} (hpg : m.page i j = some pg) (ram : Ram) :
    (m.image ram).fill i.val j.val = m.image ram := by
  funext a
  unfold Image.fill
  split
  · next hat =>
    have hpage : m.page a.directoryIndex a.tableIndex = some pg := by
      rw [Fin.ext hat.1, Fin.ext hat.2, hpg]
    rw [TableMap.image_of_page hpage]
    rfl
  · rfl

/-- Mapping a page, once its second-level table was found. -/
theorem mapPage_maps_of_open {H : Halt → Prop} (h : t.Held k p m rest) (hl : m i = some l)
    (j : Fin tableEntries) (writable : Bool) :
    ((t.mapPage i.val j.val writable).run k).Meets
      (fun e k' => t.MapsPage p rest k m i j writable e k')
      (fun cause k' => cause = .outOfMemory ∧ k' = k.push (.noRun 1) ∧
        p.spare (t.blocks m ++ rest) = ∅) H := by
  cases hpg : l.pages j with
  | some pg =>
    have hpage : m.page i j = some pg := by rw [TableMap.page_of_slot hl, hpg]
    have hmap := h.shows.mapIn_eq
    rw [h.run_mapPage_of_mapped hl hpg]
    refine .done ⟨?_, ?_, ?_, Kernel.Touches.refl p _ k⟩
    · rw [image_fill_of_mapped hpage]
      exact h.unchanged
    · rw [hmap]
      exact TableMap.maps_of_mapped hpage writable
    · rw [hmap, hpage, entryOf_some]
  | none =>
    rcases p.spare_cases (t.blocks m ++ rest) with hnone | ⟨f, hf⟩
    · rw [h.run_mapPage_exhausted hl hpg hnone]
      exact .refused ⟨rfl, rfl, hnone⟩
    · rw [h.run_mapPage hl hpg hf]
      have htouches : Kernel.Touches p {l.frame, f} k (afterMapPage p i l j ⟨f, writable⟩ k) :=
        h.touches_mapPage hl hf j writable (by simp) (by simp)
      have hframes : {l.frame, f} ⊆ t.skeleton m ∪ p.spare (t.blocks m ++ rest) :=
        Set.pair_subset (.inl (.inr ⟨i, l, hl, rfl⟩)) (.inr hf.1)
      have hheld := h.mapPage hl hpg hf writable
      have hmap := hheld.shows.mapIn_eq
      refine .done ⟨⟨_, hheld, h.sameBlocks htouches hframes, h.image_mapPage hl hpg hf writable⟩,
        ?_, ?_, htouches.mono hframes⟩
      · rw [hmap]
        exact TableMap.maps_setPage hl hpg f writable
      · rw [hmap, m.page_setPage hl, if_pos ⟨rfl, rfl⟩, entryOf_some]

/-- Mapping a page fills it with zeros unless it is mapped already. -/
theorem mapPage_becomes (h : t.Held k p m rest) (slot entry : Nat) (writable : Bool) :
    ((t.mapPage slot entry writable).run k).Meets
      (fun _ k' => t.Becomes p rest k ((m.image k.ram).fill slot entry) k' ∧
        t.Confined p m rest k k')
      (fun cause k' => cause = .outOfMemory ∧ k' = k.push (.noRun 1))
      (fun cause => cause = .indexOutOfBounds directorySlots slot ∨ cause = .slotEmpty slot ∨
        cause = .indexOutOfBounds tableEntries entry) := by
  rcases Nat.lt_or_ge slot directorySlots with hslot | hslot
  · obtain ⟨i, rfl⟩ : ∃ i : Fin directorySlots, i.val = slot := ⟨⟨slot, hslot⟩, rfl⟩
    cases hl : m i with
    | none =>
      unfold PageTable.mapPage
      rw [Transition.run_bind, h.run_slotNumbered, andThen_done, hl]
      exact .halted (.inr (.inl rfl))
    | some l =>
      rcases Nat.lt_or_ge entry tableEntries with hentry | hentry
      · refine (h.mapPage_maps_of_open hl ⟨entry, hentry⟩ writable).mono ?_ ?_ fun _ hH => hH
        · exact fun _ _ hmaps => ⟨hmaps.becomes, hmaps.confined⟩
        · exact fun _ _ hrefused => ⟨hrefused.1, hrefused.2.1⟩
      · have hindex : checkedIndex tableEntries entry =
            .error (.indexOutOfBounds tableEntries entry) := dif_neg (Nat.not_lt.2 hentry)
        have hreach := h.holds.run_reachFrame (h.leaf_mem hl)
        unfold PageTable.mapPage
        simp only [Transition.run_bind, h.run_slotNumbered, andThen_done, hl, Option.map_some,
          show l.table.frame = frameAt l.frame from rfl, hreach, hindex]
        exact .halted (.inr (.inr rfl))
  · unfold PageTable.mapPage
    rw [Transition.run_bind, run_slotNumbered_of_le h hslot]
    exact .halted (.inl rfl)

/-- Closing a slot takes its addresses along. -/
theorem closeSlot_becomes (h : t.Held k p m rest) (slot : Nat) :
    ((t.closeSlot slot).run k).Meets
      (fun _ k' => t.Becomes p rest k ((m.image k.ram).closeSlot slot) k' ∧
        t.Confined p m rest k k') (fun _ _ => False)
      (fun cause => cause = .indexOutOfBounds directorySlots slot) := by
  rcases Nat.lt_or_ge slot directorySlots with hslot | hslot
  · obtain ⟨i, rfl⟩ : ∃ i : Fin directorySlots, i.val = slot := ⟨⟨slot, hslot⟩, rfl⟩
    cases hl : m i with
    | none =>
      have himage : (m.image k.ram).closeSlot i.val = m.image k.ram := by
        rw [← m.image_setSlot_none i fun _ _ _ _ => Ram.SameFrame.refl _ _,
          m.setSlot_eq_self hl]
      rw [h.run_closeSlot_of_closed hl, himage]
      exact .done ⟨h.unchanged, Kernel.Touches.refl p _ k⟩
    | some l =>
      obtain ⟨k', hrun, hheld, hback⟩ := h.closeSlot hl
      have hoff := h.shows.sameOff_setSlotIn k.ram i none
      have hset : Kernel.Touches p {t.frame, l.frame} k
          (k.mapRam fun ram => t.setSlotIn ram i none) :=
        Kernel.Touches.mapRam k hoff (by simp)
      have htouches := hset.trans (hback.mono (by simp))
      have hframes : {t.frame, l.frame} ⊆ t.skeleton m ∪ p.spare (t.blocks m ++ rest) :=
        Set.pair_subset (.inl (.inl rfl)) (.inl (.inr ⟨i, l, hl, rfl⟩))
      rw [hrun]
      refine .done ⟨⟨_, hheld, h.sameBlocks htouches hframes, ?_⟩, htouches.mono hframes⟩
      exact m.image_setSlot_none i fun _ _ _ hpg => h.page_sameFrame hpg htouches hframes
  · unfold PageTable.closeSlot
    rw [Transition.run_bind, run_slotNumbered_of_le h hslot]
    exact .halted rfl

/-- Taking write permission changes no byte. -/
theorem writeProtect_held (h : t.Held k p m rest) (a : VirtualAddress) :
    ∃ k', (t.writeProtect a).run k = .done (m.isWritable a) k' ∧ t.Held k' p (m.protect a) rest ∧
      t.Becomes p rest k (m.image k.ram) k' ∧ Kernel.Touches p (t.skeleton m) k k' := by
  obtain ⟨k', hrun, hheld, htouches⟩ := h.writeProtect a
  refine ⟨k', hrun, hheld, ⟨m.protect a, hheld,
    h.sameBlocks htouches Set.subset_union_left, ?_⟩, htouches⟩
  exact TableMap.image_congr (m.frame_page_protect a)
    fun _ _ _ hpg => h.page_sameFrame hpg htouches Set.subset_union_left

theorem writeProtect_becomes (h : t.Held k p m rest) (a : VirtualAddress) :
    ∃ k', (t.writeProtect a).run k = .done (m.isWritable a) k' ∧
      t.Becomes p rest k (m.image k.ram) k' ∧ t.Confined p m rest k k' := by
  obtain ⟨k', hrun, -, hbecomes, htouches⟩ := h.writeProtect_held a
  exact ⟨k', hrun, hbecomes, htouches.mono Set.subset_union_left⟩

/-- Two positions have no frame in common. -/
theorem page_ne {i' : Fin directorySlots} {j' : Fin tableEntries} {pg pg' : Page}
    (h : t.Held k p m rest) (hpg : m.page i j = some pg) (hpg' : m.page i' j' = some pg')
    (hne : ¬ (i' = i ∧ j' = j)) : pg'.frame ≠ pg.frame := by
  obtain ⟨l, hl, hpage⟩ := TableMap.page_eq_some.1 hpg
  have howned : k.Holds p (⟨pg.frame, 1⟩ ::
      (t.blocks (m.setSlot i (some (l.setPage j none))) ++ rest)) :=
    h.holds.perm ((t.blocks_split_page hl hpage).append_right rest)
  have hother : (m.setSlot i (some (l.setPage j none))).page i' j' = some pg' := by
    rw [m.page_setPage hl, if_neg hne, hpg']
  exact howned.ne_of_mem (mem_framesOf_append.2 (.inl (t.page_mem_blocks hother)))

/-- A byte stored in the page of a resident address is seen there, and nowhere else. -/
theorem image_store (h : t.Held k p m rest) {a : VirtualAddress} {pg : Page}
    (hpg : m.page a.directoryIndex a.tableIndex = some pg) (v : UInt8) :
    m.image (k.ram.store (pg.frame * pageSize + a.pageOffset) v) = (m.image k.ram).store a v := by
  have hle := h.holds.frame_le (h.page_mem hpg)
  have hoffset := a.pageOffset_lt
  funext b
  unfold Image.store
  cases hb : m.page b.directoryIndex b.tableIndex with
  | none =>
    rw [TableMap.image_of_not_resident hb, TableMap.image_of_not_resident hb]
    split <;> rfl
  | some pg' =>
    rw [TableMap.image_of_page hb, TableMap.image_of_page hb, Ram.byte_store]
    have hoffset' := b.pageOffset_lt
    by_cases hab : b = a
    · subst hab
      obtain rfl := Option.some.inj (hpg.symm.trans hb)
      rw [if_pos rfl, if_pos ⟨rfl, Nat.lt_of_lt_of_le (Nat.add_lt_add_left hoffset _) hle⟩]
      rfl
    · rw [if_neg hab, if_neg]
      rintro ⟨heq, -⟩
      by_cases hat : b.directoryIndex = a.directoryIndex ∧ b.tableIndex = a.tableIndex
      · rw [hat.1, hat.2, hpg] at hb
        obtain rfl := Option.some.inj hb
        exact hab (Address.eq_of_position hat.1 hat.2 (Nat.add_left_cancel heq).symm)
      · have hne := h.page_ne hpg hb hat
        simp only [pageSize] at heq hoffset hoffset'
        omega

theorem store_becomes (h : t.Held k p m rest) {a : VirtualAddress} {pg : Page}
    (hpg : m.page a.directoryIndex a.tableIndex = some pg) (v : UInt8) :
    t.Becomes p rest k ((m.image k.ram).store a v)
      (k.mapRam (·.store (pg.frame * pageSize + a.pageOffset) v)) := by
  have hoffset := a.pageOffset_lt
  have hoff : k.ram.SameOff (k.ram.store (pg.frame * pageSize + a.pageOffset) v) pg.frame := by
    refine ⟨Ram.size_store _ _ _, fun j hj => ?_⟩
    rw [Ram.byte_store, if_neg]
    simp only [pageSize] at hj hoffset ⊢
    omega
  have htouches : Kernel.Touches p {pg.frame} k
      (k.mapRam (·.store (pg.frame * pageSize + a.pageOffset) v)) :=
    Kernel.Touches.mapRam k hoff (Set.mem_singleton _)
  have hholds := h.holds.mapRam (g := (·.store (pg.frame * pageSize + a.pageOffset) v)) hoff
    (h.holds.frame_bounds (h.page_mem hpg)).1
  refine ⟨m, h.of_touches hholds htouches ?_, h.holds.sameBlocks htouches ?_, h.image_store hpg v⟩
  · rintro f hf rfl
    obtain ⟨l, hl, hpage⟩ := TableMap.page_eq_some.1 hpg
    exact h.page_not_mem_skeleton hl hpage hf
  · rintro f rfl
    exact .inl (t.page_mem_blocks hpg)

/-- Giving a page table back leaves the frames of the others alone. -/
theorem tearDown_keeps (h : t.Held k p m rest) :
    ∃ k', t.tearDown.run k = .done () k' ∧ k'.Holds p rest ∧ k.ram.SameBlocks k'.ram rest := by
  obtain ⟨k', hrun, hholds, htouches⟩ := h.tearDown
  exact ⟨k', hrun, hholds, h.sameBlocks htouches fun f hf => .inl (.inr hf)⟩

end Held

/-- A new page table maps nothing. Its directory lies in a frame that was spare. -/
theorem create_meets (hk : k.Holds p rest) :
    (create.run k).Meets
      (fun t k' => t.Held k' p .vacant rest ∧ t.frame ∈ p.spare rest ∧
        Kernel.Touches p (p.spare rest) k k')
      (fun cause k' => cause = .outOfMemory ∧ k' = k.push (.noRun 1) ∧ p.spare rest = ∅) never := by
  rcases p.spare_cases rest with hnone | ⟨f, hf⟩
  · rw [run_create_exhausted hk hnone]
    exact .refused ⟨rfl, rfl, hnone⟩
  · rw [run_create hk hf]
    refine .done ⟨held_create hk hf, ?_, Kernel.Touches.lendCleared p k hf.1.2.1 hf.1⟩
    rw [frame_mk (hk.sound.frame_lt hf.1.2.1)]
    exact hf.1

theorem create_vacant (hk : k.Holds p rest) :
    (create.run k).Meets (fun t k' => t.Held k' p .vacant rest ∧ k.ram.SameBlocks k'.ram rest)
      (fun cause k' => cause = .outOfMemory ∧ k' = k.push (.noRun 1)) never := by
  refine (create_meets hk).mono ?_ ?_ fun _ hH => hH
  · rintro t k' ⟨hheld, -, htouches⟩
    exact ⟨hheld, hk.sameBlocks_of_spare htouches⟩
  · rintro cause k' ⟨hcause, hk', -⟩
    exact ⟨hcause, hk'⟩

/-! ## Copying -/

namespace Copying

variable {V : Set (Fin directorySlots × Fin tableEntries)} {S : Set (Fin directorySlots)}

theorem sameBlocks (h₀ : u.Held k p n (t.blocks m ++ rest))
    (h : Copying p t u m n rest k V S m' k') : k.ram.SameBlocks k'.ram (t.blocks m ++ rest) :=
  fun _ hf => h.sameFrame h₀ hf

/-- When the walk is through, the target shows the source before what it showed itself. -/
theorem image_eq (h₀ : u.Held k p n (t.blocks m ++ rest))
    (h : Copying p t u m n rest k Set.univ S m' k') :
    m'.image k'.ram = (m.image k.ram).above (n.image k.ram) := by
  funext a
  have hcopied := h.copied a.directoryIndex a.tableIndex (Set.mem_univ _)
  unfold Image.above
  cases hpg : m.page a.directoryIndex a.tableIndex with
  | some pg =>
    rw [hpg] at hcopied
    obtain ⟨f, hnew, hbytes⟩ := hcopied
    rw [TableMap.image_of_page hpg, TableMap.image_of_page hnew, hbytes _ a.pageOffset_lt]
    rfl
  | none =>
    rw [hpg] at hcopied
    rw [TableMap.image_of_not_resident hpg, Option.none_or]
    exact TableMap.image_congr_at (congrArg _ hcopied) fun _ hold =>
      h₀.page_sameFrame hold h.touches le_rfl

end Copying

theorem copyTo_becomes (h₀ : u.Held k p n (t.blocks m ++ rest)) (ht : t.Shows k.ram m) :
    ((t.copyTo u).run k).Meets
      (fun _ k' => u.Becomes p (t.blocks m ++ rest) k ((m.image k.ram).above (n.image k.ram)) k' ∧
        u.Confined p n (t.blocks m ++ rest) k k')
      (fun cause k' => cause = .outOfMemory ∧ (∃ im, u.Becomes p (t.blocks m ++ rest) k im k') ∧
        u.Confined p n (t.blocks m ++ rest) k k')
      (Copying.Clashes m n) := by
  refine (run_copyTo h₀ ht).mono ?_ ?_ (fun _ hH => hH)
  · rintro _ k' ⟨n', h⟩
    exact ⟨⟨n', h.held, h.sameBlocks h₀, h.image_eq h₀⟩, h.touches⟩
  · rintro cause k' ⟨rfl, V, S, n', h, -⟩
    exact ⟨rfl, ⟨_, n', h.held, h.sameBlocks h₀, rfl⟩, h.touches⟩

end PageTable

end SoftPaging
