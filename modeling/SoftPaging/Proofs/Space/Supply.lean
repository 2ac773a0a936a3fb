import Mathlib
import SoftPaging.Proofs.Pool.Taken
import SoftPaging.Proofs.Space.Demand

/-!
# What a page on demand takes

The page of an address takes no frame when it is resident, one when only its second-level table is
there, and two when that is missing as well (`TableMap.need`). Mapping it on demand is done exactly
when so many frames are free, and it takes the lowest ones: first for the second-level table, then for
the page (`PageTable.Supplied`). Nothing else in the table changes.
-/

namespace SoftPaging

open Outcome

variable {t : PageTable} {k k' k'' : Kernel} {p : FramePool} {m : TableMap} {rest : List Block}
  {i : Fin directorySlots} {j : Fin tableEntries} {l : Leaf} {pg : Page} {f : Nat}

/-! ## How much it takes -/

/-- How many frames it takes to map the page of an address. -/
def TableMap.need (m : TableMap) (a : VirtualAddress) : Nat :=
  if (m.page a.directoryIndex a.tableIndex).isSome then 0
  else if (m a.directoryIndex).isSome then 1 else 2

theorem TableMap.need_of_open {a : VirtualAddress} (hl : m a.directoryIndex = some l)
    (hpg : l.pages a.tableIndex = none) : m.need a = 1 := by
  simp [need, page_of_slot hl, hpg, hl]

theorem TableMap.need_of_closed {a : VirtualAddress} (hi : m a.directoryIndex = none) :
    m.need a = 2 := by
  simp [need, page_of_closed hi, hi]

namespace PageTable

/-- How many frames it takes to map the page of an address, as RAM shows it. -/
def need (t : PageTable) (ram : Ram) (a : VirtualAddress) : Nat :=
  if (t.entryIn ram a).isValid then 0
  else if (t.slotIn ram a.directoryIndex).isSome then 1 else 2

theorem need_of_valid {ram : Ram} {a : VirtualAddress} (h : (t.entryIn ram a).isValid = true) :
    t.need ram a = 0 := if_pos h

theorem need_le_two (t : PageTable) (ram : Ram) (a : VirtualAddress) : t.need ram a ≤ 2 := by
  unfold need
  split_ifs <;> omega

theorem Shows.need_eq {ram : Ram} (h : t.Shows ram m) (a : VirtualAddress) :
    t.need ram a = m.need a := by
  simp only [PageTable.need, TableMap.need, h.entryIn_eq, isValid_entryOf, h.slotIn_eq,
    Option.isSome_map]

/-- A second-level table takes one of the frames that were spare. -/
theorem spare_setSlot_vacant (t : PageTable) (p : FramePool) (rest : List Block) (hi : m i = none)
    (f : Nat) : p.spare (t.blocks (m.setSlot i (some (.vacant f))) ++ rest) =
      p.spare (t.blocks m ++ rest) \ {f} := by
  rw [p.spare_perm ((t.blocks_setSlot_vacant hi f).append_right rest), List.cons_append,
    p.spare_cons]

/-- A page in a second-level table that was just opened takes a frame besides that of the table. -/
theorem blocks_placed_of_closed (t : PageTable) (hi : m i = none) (g : Nat) (j : Fin tableEntries)
    (pg : Page) : (t.blocks (m.setSlot i (some ((Leaf.vacant g).setPage j (some pg))))).Perm
      (⟨g, 1⟩ :: ⟨pg.frame, 1⟩ :: t.blocks m) := by
  have hslot : m.setSlot i (some (.vacant g)) i = some (.vacant g) := TableMap.setSlot_self ..
  have hplace := t.blocks_setPage_of_none hslot (j := j) rfl pg
  rw [TableMap.setSlot_setSlot] at hplace
  exact hplace.trans (((t.blocks_setSlot_vacant hi g).cons _).trans (List.Perm.swap _ _ _))

namespace Held

/-- Blocks that a table takes were free before. -/
theorem freeFrames_of_perm {m' : TableMap} (taken : List Block) (h : t.Held k p m rest)
    (h' : t.Held k' p m' rest) (hperm : (t.blocks m').Perm (taken ++ t.blocks m)) :
    p.freeFrames k.ram = p.freeFrames k'.ram + frameCount taken := by
  have hadd := h.holds.represents.freeFrames_add h'.holds.represents h.holds.sound.reserved_lt.le
  have hcount := frameCount_perm (hperm.append_right rest)
  rw [List.append_assoc, frameCount_append taken] at hcount
  omega

/-- A page that is placed takes one of the free frames, and so does a second-level table. -/
theorem freeFrames_place (h : t.Held k p m rest) (hl : m i = some l) (hpg : l.pages j = none)
    (h' : t.Held k' p (m.setSlot i (some (l.setPage j (some pg)))) rest) :
    p.freeFrames k.ram = p.freeFrames k'.ram + 1 :=
  freeFrames_of_perm [⟨pg.frame, 1⟩] h h' (t.blocks_setPage_of_none hl hpg pg)

theorem freeFrames_open (h : t.Held k p m rest) (hi : m i = none)
    (h' : t.Held k' p (m.setSlot i (some (.vacant f))) rest) :
    p.freeFrames k.ram = p.freeFrames k'.ram + 1 :=
  freeFrames_of_perm [⟨f, 1⟩] h h' (t.blocks_setSlot_vacant hi f)

end Held

/-! ## What becomes of the table -/

/-- The page `pg`, which is all zeros, was put at a position of the table, which showed `m`, in the
second-level table `l` of its slot. Only the frames `F` were written to. -/
structure Placed (t : PageTable) (p : FramePool) (rest : List Block) (k : Kernel) (m : TableMap)
    (a : VirtualAddress) (l : Leaf) (pg : Page) (F : Set Nat) (k' : Kernel) : Prop where
  held : t.Held k' p
    (m.setSlot a.directoryIndex (some (l.setPage a.tableIndex (some pg)))) rest
  touches : Kernel.Touches p F k k'
  zero : ∀ o < pageSize, k'.ram.byte (pg.frame * pageSize + o) = 0

/-- The page of an address was mapped on demand, and `e` is its entry. A page that was not resident
lies in the lowest frame that was spare after the second-level table had its own. -/
inductive Supplied (t : PageTable) (p : FramePool) (rest : List Block) (k : Kernel) (m : TableMap)
    (a : VirtualAddress) (writable : Bool) : PageEntry → Kernel → Prop
  | resident {pg : Page} {k' : Kernel} (hpg : m.page a.directoryIndex a.tableIndex = some pg)
      (hram : k'.ram = k.ram) : Supplied t p rest k m a writable pg.entry k'
  | placed {l : Leaf} {f : Nat} {k' : Kernel} (hl : m a.directoryIndex = some l) (hpg : l.pages a.tableIndex = none)
      (hf : IsLeast (p.spare (t.blocks m ++ rest)) f)
      (h : t.Placed p rest k m a l ⟨f, writable⟩ {l.frame, f} k') :
      Supplied t p rest k m a writable (Page.entry ⟨f, writable⟩) k'
  | opened {g f : Nat} {k' : Kernel} (hi : m a.directoryIndex = none)
      (hg : IsLeast (p.spare (t.blocks m ++ rest)) g)
      (hf : IsLeast (p.spare (t.blocks m ++ rest) \ {g}) f)
      (h : t.Placed p rest k m a (.vacant g) ⟨f, writable⟩ {t.frame, g, f} k') :
      Supplied t p rest k m a writable (Page.entry ⟨f, writable⟩) k'

namespace Placed

variable {a : VirtualAddress} {F : Set Nat}

theorem push (h : t.Placed p rest k m a l pg F k') (e : Event) :
    t.Placed p rest k m a l pg F (k'.push e) :=
  ⟨h.held.push e, h.touches.trans (Kernel.Touches.push p F k' e), h.zero⟩

theorem congr (h : t.Placed p rest k m a l pg F k') (htouches : Kernel.Touches p ∅ k'' k) :
    t.Placed p rest k'' m a l pg F k' :=
  ⟨h.held, (htouches.mono (Set.empty_subset F)).trans h.touches, h.zero⟩

/-- A page that is placed in a second-level table that was just opened. -/
theorem of_open {g : Nat} (h : t.Placed p rest k
      (m.setSlot a.directoryIndex (some (.vacant g))) a (.vacant g) pg {g, f} k')
    (htouches : Kernel.Touches p {t.frame, g} k'' k) :
    t.Placed p rest k'' m a (.vacant g) pg {t.frame, g, f} k' where
  held := by
    rw [← m.setSlot_setSlot a.directoryIndex (some (.vacant g))]
    exact h.held
  touches := (htouches.mono (by simp [Set.insert_subset_iff])).trans
    (h.touches.mono (Set.subset_insert _ _))
  zero := h.zero

/-- The frame of the page was taken, and no other. -/
theorem lent_of_open (ht : t.Held k p m rest) (h : t.Placed p rest k m a l pg F k')
    (hl : m a.directoryIndex = some l) (hpg : l.pages a.tableIndex = none) :
    p.Lent k.ram k'.ram [pg.frame] :=
  ht.holds.represents.lent
    (h.held.holds.represents.perm ((t.blocks_setPage_of_none hl hpg pg).append_right rest))

/-- The frame of the second-level table was taken, and that of the page. -/
theorem lent_of_closed {g : Nat} (ht : t.Held k p m rest)
    (h : t.Placed p rest k m a (.vacant g) pg F k') (hi : m a.directoryIndex = none) :
    p.Lent k.ram k'.ram [g, pg.frame] :=
  ht.holds.represents.lent
    (h.held.holds.represents.perm ((t.blocks_placed_of_closed hi g _ pg).append_right rest))

/-! What RAM shows when the second-level table has the pages of its slot. -/

theorem entryIn_self (h : t.Placed p rest k m a l pg F k') :
    t.entryIn k'.ram a = pg.entry := by
  rw [h.held.shows.entryIn_eq, TableMap.page_setSlot_self, Leaf.pages_setPage_self, entryOf_some]

theorem entryIn_of_ne (ht : t.Held k p m rest) (h : t.Placed p rest k m a l pg F k')
    (hpages : ∀ j, l.pages j = m.page a.directoryIndex j) {b : VirtualAddress}
    (hb : b.pageBase ≠ a.pageBase) : t.entryIn k'.ram b = t.entryIn k.ram b := by
  have hne : ¬ (b.directoryIndex = a.directoryIndex ∧ b.tableIndex = a.tableIndex) :=
    fun hposition => hb (Address.pageBase_eq_iff.2 hposition)
  rw [h.held.shows.entryIn_eq, ht.shows.entryIn_eq, m.page_setSlot_setPage hpages, if_neg hne]

theorem slotIn_self (h : t.Placed p rest k m a l pg F k') :
    t.slotIn k'.ram a.directoryIndex = some l.table := by
  rw [h.held.shows.slotIn_eq, TableMap.setSlot_self]
  rfl

theorem slotIn_of_ne (ht : t.Held k p m rest) (h : t.Placed p rest k m a l pg F k')
    (hi : i ≠ a.directoryIndex) : t.slotIn k'.ram i = t.slotIn k.ram i := by
  rw [h.held.shows.slotIn_eq, ht.shows.slotIn_eq, TableMap.setSlot_of_ne _ _ hi]

/-- The entries of the second-level table beside that of the page. -/
theorem leaf_entryIn (h : t.Placed p rest k m a l pg F k') (hj : j ≠ a.tableIndex) :
    l.table.entryIn k'.ram j = entryOf (l.pages j) := by
  have hslot : m.setSlot a.directoryIndex (some (l.setPage a.tableIndex (some pg)))
      a.directoryIndex = some (l.setPage a.tableIndex (some pg)) := TableMap.setSlot_self ..
  have hentry := (h.held.shows.leaf_shows _ _ hslot).entryIn_eq j
  rwa [Leaf.pages_setPage_of_ne _ _ hj] at hentry

end Placed

namespace Supplied

variable {a : VirtualAddress} {writable : Bool} {e : PageEntry}

/-- The log does not matter. -/
theorem push (h : t.Supplied p rest k m a writable e k') (line : Event) :
    t.Supplied p rest k m a writable e (k'.push line) := by
  cases h with
  | resident hpg hram => exact .resident hpg hram
  | placed hl hpg hf h => exact .placed hl hpg hf (h.push line)
  | opened hi hg hf h => exact .opened hi hg hf (h.push line)

theorem congr (h : t.Supplied p rest k m a writable e k') (hram : k.ram = k''.ram)
    (htouches : Kernel.Touches p ∅ k'' k) : t.Supplied p rest k'' m a writable e k' := by
  cases h with
  | resident hpg hsame => exact .resident hpg (hsame.trans hram)
  | placed hl hpg hf h => exact .placed hl hpg hf (h.congr htouches)
  | opened hi hg hf h => exact .opened hi hg hf (h.congr htouches)

theorem entryIn_eq (ht : t.Held k p m rest) (h : t.Supplied p rest k m a writable e k') :
    t.entryIn k'.ram a = e := by
  cases h with
  | resident hpg hram => rw [hram, ht.shows.entryIn_eq, hpg, entryOf_some]
  | placed hl hpg hf h => exact h.entryIn_self
  | opened hi hg hf h => exact h.entryIn_self

theorem isValid (h : t.Supplied p rest k m a writable e k') : e.isValid = true := by
  cases h <;> exact Page.isValid_entry _

/-- It takes as many free frames as are needed. -/
theorem freeFrames_eq (ht : t.Held k p m rest) (h : t.Supplied p rest k m a writable e k') :
    p.freeFrames k.ram = p.freeFrames k'.ram + m.need a := by
  cases h with
  | resident hpg hram => simp [hram, TableMap.need, hpg]
  | placed hl hpg hf h =>
    rw [TableMap.need_of_open hl hpg]
    exact ht.freeFrames_place hl hpg h.held
  | @opened g f _ hi hg hf h =>
    rw [TableMap.need_of_closed hi]
    exact Held.freeFrames_of_perm [⟨g, 1⟩, ⟨f, 1⟩] ht h.held
      (t.blocks_placed_of_closed hi g _ ⟨f, writable⟩)

/-- Of the frames that were handed out only those of the table's own tables were written to. -/
theorem sameBlocks (ht : t.Held k p m rest) (h : t.Supplied p rest k m a writable e k') :
    k.ram.SameBlocks k'.ram rest := by
  cases h with
  | resident hpg hram =>
    rw [hram]
    exact Ram.SameBlocks.refl _ _
  | placed hl hpg hf h =>
    exact ht.sameBlocks h.touches (Set.pair_subset (.inl (.inr ⟨_, _, hl, rfl⟩)) (.inr hf.1))
  | opened hi hg hf h =>
    refine ht.sameBlocks h.touches (Set.insert_subset (.inl (.inl rfl)) ?_)
    exact Set.pair_subset (.inr hg.1) (.inr hf.1.1)

end Supplied

/-! ## Mapping on demand -/

namespace Held

variable (h : t.Held k p m rest)
include h

theorem placed_mapPage {a : VirtualAddress} (hl : m a.directoryIndex = some l)
    (hpg : l.pages a.tableIndex = none) (hf : IsLeast (p.spare (t.blocks m ++ rest)) f)
    (writable : Bool) : t.Placed p rest k m a l ⟨f, writable⟩ {l.frame, f}
      (afterMapPage p a.directoryIndex l a.tableIndex ⟨f, writable⟩ k) where
  held := h.mapPage hl hpg hf writable
  touches := h.touches_mapPage hl hf a.tableIndex writable (by simp) (by simp)
  zero _ ho := h.byte_mapPage hl hf a.tableIndex writable ho

/-- Mapping the page of an address whose second-level table is there. -/
theorem mapPage_supplies {a : VirtualAddress} (hl : m a.directoryIndex = some l) (writable : Bool) :
    ((t.mapPage a.directoryIndex.val a.tableIndex.val writable).run k).Meets
      (fun e k' => t.Supplied p rest k m a writable e k' ∧ m.need a ≤ p.freeFrames k.ram)
      (fun cause k' => cause = .outOfMemory ∧ k' = k.push (.noRun 1) ∧
        p.spare (t.blocks m ++ rest) = ∅ ∧ p.freeFrames k.ram < m.need a) never := by
  cases hpg : l.pages a.tableIndex with
  | some pg =>
    have hpage : m.page a.directoryIndex a.tableIndex = some pg := by
      rw [TableMap.page_of_slot hl, hpg]
    rw [h.run_mapPage_of_mapped hl hpg]
    exact .done ⟨.resident hpage rfl, by simp [TableMap.need, hpage]⟩
  | none =>
    have hneed := TableMap.need_of_open hl hpg
    rcases p.spare_cases (t.blocks m ++ rest) with hnone | ⟨f, hf⟩
    · have hfull := h.holds.represents.freeFrames_of_full hnone
      rw [h.run_mapPage_exhausted hl hpg hnone]
      exact .refused ⟨rfl, rfl, hnone, by omega⟩
    · have hplaced := h.placed_mapPage hl hpg hf writable
      have hfree := h.freeFrames_place hl hpg hplaced.held
      rw [h.run_mapPage hl hpg hf]
      exact .done ⟨.placed hl hpg hf hplaced, by omega⟩

/-- Mapping the page of an address on demand is done exactly when the frames it needs are free, and
takes the lowest ones. -/
theorem mapOnDemand_supplies (a : VirtualAddress) (writable : Bool) :
    ((t.mapOnDemand a writable).run k).Meets
      (fun e k' => t.Supplied p rest k m a writable e k' ∧ m.need a ≤ p.freeFrames k.ram)
      (fun cause _ => cause = .outOfMemory ∧ p.freeFrames k.ram < m.need a) never := by
  unfold mapOnDemand
  cases hl : m a.directoryIndex with
  | some l =>
    rw [Transition.run_bind, h.run_openSlot_of_open hl, andThen_done]
    refine Transition.Meets.onRefusal (h.mapPage_supplies hl writable) ?_
    rintro _ _ ⟨rfl, -, -, hshort⟩
    exact .done ⟨rfl, hshort⟩
  | none =>
    have hneed := TableMap.need_of_closed hl
    rcases p.spare_cases (t.blocks m ++ rest) with hnone | ⟨g, hg⟩
    · have hfull := h.holds.represents.freeFrames_of_full hnone
      rw [Transition.run_bind, h.run_openSlot_exhausted hl hnone]
      exact .refused ⟨rfl, by omega⟩
    · have hopen := h.openSlot hl hg
      have hfree := h.freeFrames_open hl hopen
      have hslot : m.setSlot a.directoryIndex (some (.vacant g)) a.directoryIndex =
          some (.vacant g) := TableMap.setSlot_self ..
      rw [Transition.run_bind, h.run_openSlot hl hg, andThen_done, Transition.run_onRefusal]
      rcases p.spare_cases (t.blocks (m.setSlot a.directoryIndex (some (.vacant g))) ++ rest)
        with hnone | ⟨f, hf⟩
      · obtain ⟨k', hclose, -⟩ := h.openSlot_closeSlot hl hg (.noRun 1)
        have hfull := hopen.holds.represents.freeFrames_of_full hnone
        simp only [hopen.run_mapPage_exhausted hslot rfl hnone, if_true, hclose, andThen_done]
        exact .refused ⟨rfl, by omega⟩
      · have hplaced := hopen.placed_mapPage hslot rfl hf writable
        have hfree' := hopen.freeFrames_place hslot rfl hplaced.held
        have htouches : Kernel.Touches p {t.frame, g} k (t.afterOpenSlot p a.directoryIndex g k) :=
          h.touches_openSlot hg (by simp) (by simp)
        simp only [hopen.run_mapPage hslot rfl hf writable]
        rw [t.spare_setSlot_vacant p rest hl g] at hf
        exact .done ⟨.opened hl hg hf (hplaced.of_open htouches), by omega⟩

end Held

end PageTable

end SoftPaging
