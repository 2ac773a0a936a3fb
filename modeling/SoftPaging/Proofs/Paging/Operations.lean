import Mathlib
import SoftPaging.Proofs.Paging.Held

/-!
# Growing and changing a page table

What the operations that make a page table, open a slot, map a page, or take write permission come
to, on a table that is held. Each is given as the kernel it leaves, with one theorem for each way it
can end; what the table is then is said by the theorem of the same name about `Held`.
-/

namespace SoftPaging

open Outcome

variable {t : PageTable} {k : Kernel} {p : FramePool} {m : TableMap} {rest live : List Block}
  {i : Fin directorySlots} {j : Fin tableEntries} {l : Leaf} {pg : Page} {f : Nat}

/-! ## Tables of their own -/

/-- Taking a frame for a table, filling it with zeros, and making sure it is not frame zero. -/
theorem run_takeCleared {α : Type} (make : PhysicalAddress → α) (hk : k.Holds p live)
    (hf : IsLeast (p.spare live) f) :
    (do
      let frame ← Op.takeFrame
      Op.onRam fun ram => ram.fill frame.val pageSize 0
      Op.rejectFrameZero frame
      return make frame : Op α).run k = .done (make (frameAt f)) (k.lendCleared p f) := by
  have hmem := mem_framesOf_self f live
  have hval := val_frameAt ((hk.lend hf).frame_lt hmem)
  have hreject := (hk.lend hf).rejectFrameZero hmem
  simp [hk.run_takeFrame hf, hreject, Kernel.lendCleared, hval]

namespace EntryTable

theorem run_create (hk : k.Holds p live) (hf : IsLeast (p.spare live) f) :
    create.run k = .done ⟨frameAt f⟩ (k.lendCleared p f) :=
  run_takeCleared EntryTable.mk hk hf

theorem run_create_exhausted (hk : k.Holds p live) (hnone : p.spare live = ∅) :
    create.run k = .refused .outOfMemory (k.push (.noRun 1)) := by
  simp [create, hk.run_takeFrame_exhausted hnone]

end EntryTable

namespace PageTable

theorem run_create (hk : k.Holds p live) (hf : IsLeast (p.spare live) f) :
    create.run k = .done ⟨frameAt f⟩ (k.lendCleared p f) :=
  run_takeCleared PageTable.mk hk hf

theorem run_create_exhausted (hk : k.Holds p live) (hnone : p.spare live = ∅) :
    create.run k = .refused .outOfMemory (k.push (.noRun 1)) := by
  simp [create, hk.run_takeFrame_exhausted hnone]

theorem frame_mk (hf : f < 1048576) : (PageTable.mk (frameAt f)).frame = f := number_frameAt hf

/-- A new page table maps nothing. -/
theorem held_create (hk : k.Holds p rest) (hf : IsLeast (p.spare rest) f) :
    (PageTable.mk (frameAt f)).Held (k.lendCleared p f) p .vacant rest := by
  have hlt := hk.sound.frame_lt hf.1.2.1
  refine ⟨⟨isPageAligned_frameAt hlt, fun i => ?_, fun i l hl => by cases hl⟩, ?_⟩
  · -- an empty slot reads as an entry that maps nothing does: a word of zeros
    have hvacant := EntryTable.shows_vacant hlt fun j hj => hk.byte_lendCleared hf hj
    have hslot : (k.lendCleared p f).ram.word ((frameAt f).val + 4 * i.val) = 0 :=
      congrArg PageEntry.bits (hvacant.entryIn_eq i)
    unfold slotIn slotAddress
    rw [hslot]
    rfl
  · unfold blocks
    rw [frame_mk hlt, TableMap.blocks_vacant]
    exact hk.lendCleared hf

/-! ## Opening a slot -/

/-- A slot that is opened adds the frame of its second-level table. -/
theorem blocks_setSlot_vacant (t : PageTable) (hi : m i = none) (f : Nat) :
    (t.blocks (m.setSlot i (some (.vacant f)))).Perm (⟨f, 1⟩ :: t.blocks m) := by
  have hvacant : leafBlocks (some (Leaf.vacant f)) = [⟨f, 1⟩] := by
    rw [leafBlocks_some, Leaf.blocks, Leaf.pageBlocks_vacant, Leaf.vacant]
  have hset := t.blocks_setSlot m i (some (.vacant f))
  rwa [hvacant, m.setSlot_eq_self hi] at hset

/-- The kernel after slot `i` got a second-level table in frame `f`. -/
def afterOpenSlot (t : PageTable) (p : FramePool) (i : Fin directorySlots) (f : Nat) (k : Kernel) :
    Kernel :=
  ((k.lendCleared p f).push (.slotFilled i.val (frameAt f))).mapRam fun ram =>
    t.setSlotIn ram i (some ⟨frameAt f⟩)

namespace Held

theorem run_openSlot_of_open (h : t.Held k p m rest) (hl : m i = some l) :
    (t.openSlot i.val).run k = .done false k := by
  unfold openSlot
  simp [h.run_slotNumbered, hl]

theorem run_openSlot (h : t.Held k p m rest) (hi : m i = none)
    (hf : IsLeast (p.spare (t.blocks m ++ rest)) f) :
    (t.openSlot i.val).run k = .done true (t.afterOpenSlot p i f k) := by
  have hlend := h.holds.lendCleared hf
  have hreach : (Op.reachFrame t.directory).run
      ((k.lendCleared p f).push (.slotFilled i.val (frameAt f))) =
        .done () ((k.lendCleared p f).push (.slotFilled i.val (frameAt f))) := by
    rw [h.shows.directory_eq]
    exact (hlend.push _).run_reachFrame (mem_framesOf_cons.2 (.inr h.frame_mem))
  unfold openSlot setSlot
  simp [h.run_slotNumbered, hi, EntryTable.run_create h.holds hf, hreach, afterOpenSlot]

theorem run_openSlot_exhausted (h : t.Held k p m rest) (hi : m i = none)
    (hnone : p.spare (t.blocks m ++ rest) = ∅) :
    (t.openSlot i.val).run k = .refused .outOfMemory (k.push (.noRun 1)) := by
  unfold openSlot
  simp [h.run_slotNumbered, hi, EntryTable.run_create_exhausted h.holds hnone]

/-- A table is held as before when one more frame was lent and only that frame written to. -/
theorem lent (h : t.Held k p m rest) {k' : Kernel}
    (hk : k'.Holds p (⟨f, 1⟩ :: (t.blocks m ++ rest))) (htouches : Kernel.Touches p {f} k k') :
    t.Held k' p m (⟨f, 1⟩ :: rest) :=
  h.of_touches (hk.perm List.perm_middle.symm) htouches fun _ hg =>
    hk.ne_of_mem (h.skeleton_mem hg)

theorem lendCleared (h : t.Held k p m rest) (hf : IsLeast (p.spare (t.blocks m ++ rest)) f) :
    t.Held (k.lendCleared p f) p m (⟨f, 1⟩ :: rest) :=
  h.lent (h.holds.lendCleared hf)
    (Kernel.Touches.lendCleared p k hf.1.2.1 (Set.mem_singleton f))

/-- Writing a slot of a table that is held. -/
theorem setSlot (h : t.Held k p m rest) (i : Fin directorySlots) (l? : Option Leaf)
    (hshows : ∀ l, l? = some l → l.table.Shows k.ram l) {rest' : List Block}
    (hk : k.Holds p (t.blocks (m.setSlot i l?) ++ rest')) :
    t.Held (k.mapRam fun ram => t.setSlotIn ram i (l?.map Leaf.table)) p (m.setSlot i l?) rest' := by
  have hcons : k.Holds p (⟨t.frame, 1⟩ :: ((m.setSlot i l?).blocks ++ rest')) := hk
  have hmem := mem_framesOf_self t.frame ((m.setSlot i l?).blocks ++ rest')
  have hleaf {i' : Fin directorySlots} {l : Leaf} (hl : m.setSlot i l? i' = some l) :
      l.frame ∈ framesOf ((m.setSlot i l?).blocks ++ rest') :=
    mem_framesOf_append.2 (.inl (TableMap.leaf_mem_blocks hl))
  constructor
  · rw [Kernel.ram_mapRam]
    refine h.shows.setSlot (hcons.frame_le hmem) i l? (fun l hl => ⟨?_, hshows l hl⟩) ?_
    · have hl' : m.setSlot i l? i = some l := by rw [TableMap.setSlot_self, hl]
      exact hcons.frame_pos (mem_framesOf_cons.2 (.inr (hleaf hl')))
    · intro i' l hl
      exact hcons.ne_of_mem (hleaf hl)
  · exact hk.mapRam (h.shows.sameOff_setSlotIn k.ram i _) (hcons.frame_bounds hmem).1

/-- An opened slot has a second-level table that maps nothing. -/
theorem openSlot (h : t.Held k p m rest) (hi : m i = none)
    (hf : IsLeast (p.spare (t.blocks m ++ rest)) f) :
    t.Held (t.afterOpenSlot p i f k) p (m.setSlot i (some (.vacant f))) rest := by
  have hlt := h.holds.sound.frame_lt hf.1.2.1
  have hperm : (t.blocks m ++ ⟨f, 1⟩ :: rest).Perm
      (t.blocks (m.setSlot i (some (.vacant f))) ++ rest) :=
    List.perm_middle.trans ((t.blocks_setSlot_vacant hi f).symm.append_right rest)
  have hheld := (h.lendCleared hf).push (.slotFilled i.val (frameAt f))
  refine hheld.setSlot i (some (.vacant f)) ?_ (hheld.holds.perm hperm)
  rintro l ⟨rfl⟩
  exact EntryTable.shows_vacant hlt fun j hj => h.holds.byte_lendCleared hf hj

theorem touches_openSlot (h : t.Held k p m rest)
    (hf : IsLeast (p.spare (t.blocks m ++ rest)) f) {F : Set Nat} (hdir : t.frame ∈ F)
    (hmem : f ∈ F) : Kernel.Touches p F k (t.afterOpenSlot p i f k) := by
  refine ((Kernel.Touches.lendCleared p k hf.1.2.1 hmem).trans
    (Kernel.Touches.push p F _ (.slotFilled i.val (frameAt f)))).trans ?_
  exact Kernel.Touches.mapRam _ (h.shows.sameOff_setSlotIn _ i _) hdir

end Held

/-! ## Mapping a page -/

theorem blocks_setPage (t : PageTable) (m : TableMap) (i : Fin directorySlots) (l : Leaf)
    (j : Fin tableEntries) (o : Option Page) :
    (t.blocks (m.setSlot i (some (l.setPage j o)))).Perm
      (pageBlocks o ++ t.blocks (m.setSlot i (some (l.setPage j none)))) := by
  have hwith := t.blocks_setSlot m i (some (l.setPage j o))
  have hwithout := t.blocks_setSlot m i (some (l.setPage j none))
  rw [leafBlocks_some] at hwith hwithout
  refine hwith.trans (((l.blocks_setPage j o).append_right _).trans ?_)
  rw [List.append_assoc]
  exact hwithout.symm.append_left _

/-- Taking the page of an entry out. -/
theorem blocks_split_page (t : PageTable) (hl : m i = some l) {o : Option Page}
    (ho : l.pages j = o) : (t.blocks m).Perm
      (pageBlocks o ++ t.blocks (m.setSlot i (some (l.setPage j none)))) := by
  have h := t.blocks_setPage m i l j o
  rwa [← ho, l.setPage_eq_self, m.setSlot_eq_self hl, ho] at h

/-- A page that is placed where there was none adds its own frame. -/
theorem blocks_setPage_of_none (t : PageTable) (hl : m i = some l) (hpg : l.pages j = none)
    (pg : Page) : (t.blocks (m.setSlot i (some (l.setPage j (some pg))))).Perm
      (⟨pg.frame, 1⟩ :: t.blocks m) := by
  have hset := t.blocks_setPage m i l j (some pg)
  have hsame := t.blocks_split_page hl hpg
  rw [pageBlocks_some] at hset
  rw [pageBlocks_none, List.nil_append] at hsame
  exact hset.trans (hsame.symm.cons _)

/-- The kernel after the page at a position was mapped to frame `f`. -/
def afterMapPage (p : FramePool) (i : Fin directorySlots) (l : Leaf) (j : Fin tableEntries)
    (pg : Page) (k : Kernel) : Kernel :=
  ((k.lendCleared p pg.frame).mapRam fun ram => l.table.setEntryIn ram j pg.entry).push
    (.pageMapped (pageAt i j) (frameAt pg.frame))

namespace Held

/-- Mapping a page, once its second-level table and its entry were found. -/
theorem run_mapPage_of_open (h : t.Held k p m rest) (hl : m i = some l) (j : Fin tableEntries)
    (writable : Bool) :
    (t.mapPage i.val j.val writable).run k =
      if (l.pages j).isSome then .done (entryOf (l.pages j)) k
      else ((Op.allocateCleared 1).run k).andThen fun frame k' =>
        (do
          let new ← PageEntry.map frame (.mapped writable)
          l.table.setEntry j new
          Op.record (.pageMapped (pageAt i j) frame)
          return new : Op PageEntry).run k' := by
  have hreach := h.holds.run_reachFrame (h.leaf_mem hl)
  unfold mapPage
  simp only [Transition.run_bind, h.run_slotNumbered, andThen_done, hl, Option.map_some,
    show l.table.frame = frameAt l.frame from rfl, hreach, checkedIndex_of_lt j.isLt,
    Transition.liftM_ok, Transition.run_pure, Fin.eta, h.run_entry hl j, isValid_entryOf]
  split <;> rfl

theorem run_mapPage_of_mapped (h : t.Held k p m rest) (hl : m i = some l)
    (hpg : l.pages j = some pg) (writable : Bool) :
    (t.mapPage i.val j.val writable).run k = .done pg.entry k := by
  rw [h.run_mapPage_of_open hl, hpg]
  rfl

theorem run_mapPage (h : t.Held k p m rest) (hl : m i = some l) (hpg : l.pages j = none)
    (hf : IsLeast (p.spare (t.blocks m ++ rest)) f) (writable : Bool) :
    (t.mapPage i.val j.val writable).run k =
      .done (Page.entry ⟨f, writable⟩) (afterMapPage p i l j ⟨f, writable⟩ k) := by
  have hlt := h.holds.sound.frame_lt hf.1.2.1
  have hset := (h.lendCleared hf).run_setEntry hl j (Page.entry ⟨f, writable⟩)
  rw [h.run_mapPage_of_open hl, hpg, h.holds.run_allocateCleared hf, andThen_done,
    PageEntry.map_frameAt hlt]
  simp [hset, afterMapPage]

theorem run_mapPage_exhausted (h : t.Held k p m rest) (hl : m i = some l) (hpg : l.pages j = none)
    (hnone : p.spare (t.blocks m ++ rest) = ∅) (writable : Bool) :
    (t.mapPage i.val j.val writable).run k = .refused .outOfMemory (k.push (.noRun 1)) := by
  rw [h.run_mapPage_of_open hl, hpg, h.holds.run_allocateCleared_exhausted hnone]
  rfl

/-- Writing an entry of a table that is held. -/
theorem setEntry (h : t.Held k p m rest) (hl : m i = some l) (j : Fin tableEntries)
    (o : Option Page) {rest' : List Block}
    (hk : k.Holds p (t.blocks (m.setSlot i (some (l.setPage j o))) ++ rest')) :
    t.Held (k.mapRam fun ram => l.table.setEntryIn ram j (entryOf o)) p
      (m.setSlot i (some (l.setPage j o))) rest' := by
  have hlt := (h.shows.leaf_shows i l hl).frame_lt
  have hbounds := h.holds.frame_bounds (h.leaf_mem hl)
  refine ⟨?_, hk.mapRam (EntryTable.sameOff_setEntryIn k.ram hlt j _) hbounds.1⟩
  rw [Kernel.ram_mapRam]
  refine h.shows.setEntry hl (h.holds.frame_le (h.leaf_mem hl)) j o ?_ (h.leaf_ne hl) ?_
  · rintro pg rfl
    have hset : m.setSlot i (some (l.setPage j (some pg))) i = some (l.setPage j (some pg)) :=
      TableMap.setSlot_self ..
    refine hk.frame_lt (mem_framesOf_append.2 (.inl (mem_framesOf_cons.2 (.inr ?_))))
    exact TableMap.mem_framesOf_blocks.2 ⟨i, _, hset,
      Leaf.mem_framesOf_blocks.2 (.inr ⟨j, pg, Leaf.pages_setPage_self .., rfl⟩)⟩
  · intro i' l' hne hl'
    exact h.leaf_ne_leaf hl hl' hne

/-- A frame that was lent for it becomes the page of a position without one. -/
theorem placePage (h : t.Held k p m (⟨f, 1⟩ :: rest)) (hl : m i = some l) (hpg : l.pages j = none)
    (writable : Bool) :
    t.Held (k.mapRam fun ram => l.table.setEntryIn ram j (Page.entry ⟨f, writable⟩)) p
      (m.setSlot i (some (l.setPage j (some ⟨f, writable⟩)))) rest := by
  have hperm : (t.blocks m ++ ⟨f, 1⟩ :: rest).Perm
      (t.blocks (m.setSlot i (some (l.setPage j (some ⟨f, writable⟩)))) ++ rest) :=
    List.perm_middle.trans ((t.blocks_setPage_of_none hl hpg ⟨f, writable⟩).symm.append_right rest)
  exact h.setEntry hl j (some ⟨f, writable⟩) (h.holds.perm hperm)

/-- A position that was mapped has a page of its own. -/
theorem mapPage (h : t.Held k p m rest) (hl : m i = some l) (hpg : l.pages j = none)
    (hf : IsLeast (p.spare (t.blocks m ++ rest)) f) (writable : Bool) :
    t.Held (afterMapPage p i l j ⟨f, writable⟩ k) p
      (m.setSlot i (some (l.setPage j (some ⟨f, writable⟩)))) rest :=
  ((h.lendCleared hf).placePage hl hpg writable).push _

theorem touches_mapPage (h : t.Held k p m rest) (hl : m i = some l)
    (hf : IsLeast (p.spare (t.blocks m ++ rest)) f) (j : Fin tableEntries) (writable : Bool)
    {F : Set Nat} (hleaf : l.frame ∈ F) (hmem : f ∈ F) :
    Kernel.Touches p F k (afterMapPage p i l j ⟨f, writable⟩ k) := by
  have hlt := (h.shows.leaf_shows i l hl).frame_lt
  refine ((Kernel.Touches.lendCleared p k hf.1.2.1 hmem).trans ?_).trans
    (Kernel.Touches.push p F _ _)
  exact Kernel.Touches.mapRam _ (EntryTable.sameOff_setEntryIn _ hlt j _) hleaf

end Held

end PageTable

/-! ## Taking write permission -/

namespace TableMap

/-- The map without write permission for the page at an address. -/
def protect (m : TableMap) (a : VirtualAddress) : TableMap :=
  match m a.directoryIndex with
  | some l =>
    m.setSlot a.directoryIndex
      (some (l.setPage a.tableIndex ((l.pages a.tableIndex).map Page.readOnly)))
  | none => m

/-- Whether there is a page at an address that may be written to. -/
def isWritable (m : TableMap) (a : VirtualAddress) : Bool :=
  (m.page a.directoryIndex a.tableIndex).any Page.writable

theorem page_protect (m : TableMap) (a : VirtualAddress) (i : Fin directorySlots)
    (j : Fin tableEntries) : (m.protect a).page i j =
      if a.directoryIndex = i ∧ a.tableIndex = j then (m.page i j).map Page.readOnly
      else m.page i j := by
  unfold protect
  cases hl : m a.directoryIndex with
  | none =>
    show m.page i j = _
    by_cases hat : a.directoryIndex = i ∧ a.tableIndex = j
    · have hnone : m.page i j = none := by rw [← hat.1, page_of_closed hl]
      rw [if_pos hat, hnone]
      rfl
    · rw [if_neg hat]
  | some l =>
    show (m.setSlot _ _).page i j = _
    rw [m.page_setPage hl]
    by_cases hat : i = a.directoryIndex ∧ j = a.tableIndex
    · rw [if_pos hat, if_pos ⟨hat.1.symm, hat.2.symm⟩, hat.1, hat.2, page_of_slot hl]
    · rw [if_neg hat, if_neg fun h => hat ⟨h.1.symm, h.2.symm⟩]

/-- The second-level tables stay where they are. -/
theorem frame_protect (m : TableMap) (a : VirtualAddress) (i : Fin directorySlots) :
    (m.protect a i).map Leaf.frame = (m i).map Leaf.frame := by
  unfold protect
  cases hl : m a.directoryIndex with
  | none => rfl
  | some l =>
    show (m.setSlot _ _ i).map Leaf.frame = _
    by_cases hi : i = a.directoryIndex
    · rw [hi, setSlot_self, hl]
      rfl
    · rw [m.setSlot_of_ne _ hi]

end TableMap

namespace PageTable

/-- The blocks do not depend on the permissions of a page. -/
theorem blocks_protect (t : PageTable) (m : TableMap) (a : VirtualAddress) :
    (t.blocks (m.protect a)).Perm (t.blocks m) := by
  unfold TableMap.protect
  cases hl : m a.directoryIndex with
  | none => rfl
  | some l =>
    have hsame : pageBlocks ((l.pages a.tableIndex).map Page.readOnly) =
        pageBlocks (l.pages a.tableIndex) := by
      cases l.pages a.tableIndex <;> rfl
    have hset := t.blocks_setPage m a.directoryIndex l a.tableIndex
      ((l.pages a.tableIndex).map Page.readOnly)
    rw [hsame] at hset
    exact hset.trans (t.blocks_split_page hl rfl).symm

/-- Taking write permission changes the entry of the address and nothing else. -/
theorem Held.writeProtect (h : t.Held k p m rest) (a : VirtualAddress) :
    ∃ k', (t.writeProtect a).run k = .done (m.isWritable a) k' ∧ t.Held k' p (m.protect a) rest ∧
      Kernel.Touches p (t.skeleton m) k k' := by
  have hholds := h.holds.perm ((t.blocks_protect m a).symm.append_right rest)
  unfold PageTable.writeProtect TableMap.isWritable
  rw [Transition.run_bind, h.run_slot, andThen_done]
  unfold TableMap.protect at hholds ⊢
  cases hl : m a.directoryIndex with
  | none =>
    rw [TableMap.page_of_closed hl]
    exact ⟨k, rfl, h, Kernel.Touches.refl p _ k⟩
  | some l =>
    rw [hl] at hholds
    have hentry := h.run_entry hl a.tableIndex
    have hset := h.setEntry hl a.tableIndex ((l.pages a.tableIndex).map Page.readOnly) hholds
    simp only [Option.map_some, Transition.run_bind, hentry, andThen_done, TableMap.page_of_slot hl]
    cases hpg : l.pages a.tableIndex with
    | none =>
      have hsame : m.setSlot a.directoryIndex (some (l.setPage a.tableIndex none)) = m := by
        rw [← hpg, l.setPage_eq_self, m.setSlot_eq_self hl]
      refine ⟨k, rfl, ?_, Kernel.Touches.refl p _ k⟩
      rw [Option.map_none, hsame]
      exact h
    | some pg =>
      rw [hpg] at hset
      simp only [Option.map_some, entryOf_some, Page.isDirty_entry, Page.writeProtect_entry]
        at hset ⊢
      rw [Option.any_some]
      cases hw : pg.writable with
      | true =>
        refine ⟨_, ?_, hset, ?_⟩
        · simp [h.run_setEntry hl]
        · exact Kernel.Touches.mapRam k (EntryTable.sameOff_setEntryIn k.ram
            (h.shows.leaf_shows _ l hl).frame_lt _ _) (.inr ⟨_, l, hl, rfl⟩)
      | false =>
        have hread : pg.readOnly = pg := by rw [Page.readOnly, ← hw]
        have hsame : m.setSlot a.directoryIndex (some (l.setPage a.tableIndex (some pg))) = m := by
          rw [← hpg, l.setPage_eq_self, m.setSlot_eq_self hl]
        refine ⟨k, rfl, ?_, Kernel.Touches.refl p _ k⟩
        rw [hread, hsame]
        exact h

end PageTable

end SoftPaging
