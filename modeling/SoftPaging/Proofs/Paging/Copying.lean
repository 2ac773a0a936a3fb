import Mathlib
import SoftPaging.Paging.Copy
import SoftPaging.Proofs.Paging.Counting
import SoftPaging.Proofs.Paging.Release

/-!
# Copying one page table into another

Copying walks the positions of the source. Its invariant `Copying` says, at any moment, that the
positions the walk has been at (`V`) hold copies of the source's pages, and that the others hold what
the target had before: so when the walk is through, every page was copied, and when memory runs out on
the way, nothing was lost.

A copied page has the flags of its source and a frame of its own with the same bytes
(`CopiedPage`). Copying halts only at a position that is mapped on both sides.
-/

namespace SoftPaging

open Outcome

variable {t u : PageTable} {k k' k'' : Kernel} {p : FramePool} {m n n' : TableMap}
  {rest live : List Block} {i : Fin directorySlots} {j : Fin tableEntries} {l : Leaf} {f s : Nat}

/-! ## One page -/

namespace Kernel

/-- The kernel after frame `f` was taken and the bytes of frame `s` were copied to it. -/
def lendCopy (k : Kernel) (p : FramePool) (s f : Nat) : Kernel :=
  (k.lend p ⟨f, 1⟩).mapRam fun ram => ram.copy (s * pageSize) (f * pageSize) pageSize

namespace Holds

variable (h : k.Holds p live) (hf : IsLeast (p.spare live) f) (hs : s ∈ framesOf live)
include h hf hs

theorem sameOff_copy : (k.lend p ⟨f, 1⟩).ram.SameOff
    ((k.lend p ⟨f, 1⟩).ram.copy (s * pageSize) (f * pageSize) pageSize) f where
  size_eq := Ram.size_copy _ _ _ _
  byte_eq j hj := by
    have hne : s ≠ f := (h.lend hf).ne_of_mem hs
    rw [Ram.byte_copy _ _ (by simp only [pageSize]; omega), if_neg]
    simp only [pageSize] at hj ⊢
    omega

theorem lendCopy : (k.lendCopy p s f).Holds p (⟨f, 1⟩ :: live) :=
  (h.lend hf).mapRam (h.sameOff_copy hf hs) hf.1.1

theorem touches_lendCopy : Touches p {f} k (k.lendCopy p s f) :=
  (Touches.lend p {f} k (b := ⟨f, 1⟩) hf.1.2.1).trans
    (Touches.mapRam _ (h.sameOff_copy hf hs) (Set.mem_singleton f))

/-- The copy has the bytes of its source. -/
theorem byte_lendCopy {o : Nat} (ho : o < pageSize) :
    (k.lendCopy p s f).ram.byte (f * pageSize + o) = k.ram.byte (s * pageSize + o) := by
  have hne : s ≠ f := (h.lend hf).ne_of_mem hs
  have hle := (h.lend hf).frame_le (mem_framesOf_self f live)
  have hsame := (Touches.lend p ∅ k (b := ⟨f, 1⟩) hf.1.2.1).sameFrame h.sound
    (h.frame_bounds hs).1 (Set.notMem_empty s)
  unfold Kernel.lendCopy
  rw [ram_mapRam, Ram.byte_copy _ _ (by simp only [pageSize]; omega), if_pos (by omega),
    Nat.add_sub_cancel_left]
  exact hsame.byte (Nat.le_add_right _ _) (Nat.add_lt_add_left ho _)

end Holds

end Kernel

namespace PageTable

/-- The kernel after the page at a position of a second-level table became a copy of frame `s`. -/
def afterCopyPage (p : FramePool) (l : Leaf) (j : Fin tableEntries) (s : Nat) (pg : Page)
    (k : Kernel) : Kernel :=
  (k.lendCopy p s pg.frame).mapRam fun ram => l.table.setEntryIn ram j pg.entry

namespace Held

theorem run_copyPage_of_open (h : u.Held k p n rest) (hl : n i = some l) (j : Fin tableEntries)
    (source : PhysicalAddress) (flags : PageFlags) :
    (u.copyPage i j source flags).run k =
      if (l.pages j).isSome then .halted .copyTargetMapped
      else ((Op.allocate 1).run k).andThen fun frame k' =>
        (do
          Op.reachFrame source
          Op.reachFrame frame
          Op.onRam fun ram => ram.copy source.val frame.val pageSize
          l.table.setEntry j (← PageEntry.map frame flags) : Op Unit).run k' := by
  unfold copyPage
  rw [Transition.run_bind, h.run_slot, andThen_done, hl]
  simp only [Option.map_some, Transition.run_bind, h.run_entry hl j, andThen_done, isValid_entryOf]
  split <;> rfl

theorem run_copyPage (h : u.Held k p n rest) (hl : n i = some l) (hpg : l.pages j = none)
    (hs : s ∈ framesOf rest) (hf : IsLeast (p.spare (u.blocks n ++ rest)) f) (writable : Bool) :
    (u.copyPage i j (frameAt s) (.mapped writable)).run k =
      .done () (afterCopyPage p l j s ⟨f, writable⟩ k) := by
  have hs' : s ∈ framesOf (u.blocks n ++ rest) := mem_framesOf_append.2 (.inr hs)
  have hlend := h.holds.lend hf
  have hmem := mem_framesOf_self f (u.blocks n ++ rest)
  have hcopy := h.lent (h.holds.lendCopy hf hs') (h.holds.touches_lendCopy hf hs')
  have hset := hcopy.run_setEntry hl j (Page.entry ⟨f, writable⟩)
  rw [h.run_copyPage_of_open hl, hpg, h.holds.run_allocate hf, andThen_done,
    PageEntry.map_frameAt (hlend.frame_lt hmem)]
  simp only [Option.isSome_none, Bool.false_eq_true, if_false, Transition.run_bind,
    hlend.run_reachFrame (mem_framesOf_cons.2 (.inr hs')), hlend.run_reachFrame hmem, andThen_done,
    Op.run_onRam, Transition.liftM_ok, Transition.run_pure,
    val_frameAt (hlend.frame_lt (mem_framesOf_cons.2 (.inr hs'))), val_frameAt (hlend.frame_lt hmem)]
  exact hset

theorem run_copyPage_exhausted (h : u.Held k p n rest) (hl : n i = some l)
    (hpg : l.pages j = none) (hnone : p.spare (u.blocks n ++ rest) = ∅) (source : PhysicalAddress)
    (flags : PageFlags) :
    (u.copyPage i j source flags).run k = .refused .outOfMemory (k.push (.noRun 1)) := by
  rw [h.run_copyPage_of_open hl, hpg, h.holds.run_allocate_exhausted hnone]
  rfl

/-- A copied page has a frame of its own. -/
theorem copyPage (h : u.Held k p n rest) (hl : n i = some l) (hpg : l.pages j = none)
    (hs : s ∈ framesOf rest) (hf : IsLeast (p.spare (u.blocks n ++ rest)) f) (writable : Bool) :
    u.Held (afterCopyPage p l j s ⟨f, writable⟩ k) p
      (n.setSlot i (some (l.setPage j (some ⟨f, writable⟩)))) rest := by
  have hs' : s ∈ framesOf (u.blocks n ++ rest) := mem_framesOf_append.2 (.inr hs)
  have hcopy := h.lent (h.holds.lendCopy hf hs') (h.holds.touches_lendCopy hf hs')
  exact hcopy.placePage hl hpg writable

theorem touches_copyPage (h : u.Held k p n rest) (hl : n i = some l) (j : Fin tableEntries)
    (hs : s ∈ framesOf rest) (hf : IsLeast (p.spare (u.blocks n ++ rest)) f) (writable : Bool) :
    Kernel.Touches p {l.frame, f} k (afterCopyPage p l j s ⟨f, writable⟩ k) := by
  have hs' : s ∈ framesOf (u.blocks n ++ rest) := mem_framesOf_append.2 (.inr hs)
  have hlt := (h.shows.leaf_shows i l hl).frame_lt
  refine ((h.holds.touches_lendCopy hf hs').mono (by simp)).trans ?_
  exact Kernel.Touches.mapRam _ (EntryTable.sameOff_setEntryIn _ hlt j _) (by simp)

theorem byte_copyPage (h : u.Held k p n rest) (hl : n i = some l) (j : Fin tableEntries)
    (hs : s ∈ framesOf rest) (hf : IsLeast (p.spare (u.blocks n ++ rest)) f) (writable : Bool)
    {o : Nat} (ho : o < pageSize) :
    (afterCopyPage p l j s ⟨f, writable⟩ k).ram.byte (f * pageSize + o) =
      k.ram.byte (s * pageSize + o) := by
  have hs' : s ∈ framesOf (u.blocks n ++ rest) := mem_framesOf_append.2 (.inr hs)
  have hlt := (h.shows.leaf_shows i l hl).frame_lt
  have hne : l.frame ≠ f := (h.holds.lend hf).ne_of_mem (h.leaf_mem hl)
  have hoff := EntryTable.sameOff_setEntryIn (k.lendCopy p s f).ram hlt j (Page.entry ⟨f, writable⟩)
  have hframe : (f * pageSize + o) / pageSize ≠ l.frame := by
    simp only [pageSize] at ho ⊢
    omega
  unfold afterCopyPage
  rw [Kernel.ram_mapRam, hoff.byte_eq _ hframe, h.holds.byte_lendCopy hf hs' ho]

end Held

/-- Filling a slot adds the frame of its table to those of the others. -/
theorem skeleton_setSlot_subset (t : PageTable) (m : TableMap) (i : Fin directorySlots) (l : Leaf) :
    t.skeleton (m.setSlot i (some l)) ⊆ insert l.frame (t.skeleton m) := by
  rintro f (hf | ⟨i', l', hl', rfl⟩)
  · exact .inr (.inl hf)
  · by_cases hi : i' = i
    · subst hi
      rw [TableMap.setSlot_self] at hl'
      obtain rfl := Option.some.inj hl'
      exact .inl rfl
    · rw [TableMap.setSlot_of_ne _ _ hi] at hl'
      exact .inr (.inr ⟨i', l', hl', rfl⟩)

/-- What is spare next to a table with one slot more was spare before. -/
theorem spare_setSlot_subset (t : PageTable) (p : FramePool) (rest : List Block)
    {m : TableMap} (hi : m i = none) (l : Leaf) :
    p.spare (t.blocks (m.setSlot i (some l)) ++ rest) ⊆ p.spare (t.blocks m ++ rest) := by
  apply p.spare_subset
  intro g hg
  rw [framesOf_perm ((t.blocks_setSlot m i (some l)).append_right rest), m.setSlot_eq_self hi,
    List.append_assoc]
  exact mem_framesOf_append.2 (.inr hg)

/-- What is spare next to a table with one page more was spare before. -/
theorem spare_setPage_subset (t : PageTable) (p : FramePool) (rest : List Block) {m : TableMap}
    (hl : m i = some l) (hpg : l.pages j = none) (pg : Page) :
    p.spare (t.blocks (m.setSlot i (some (l.setPage j (some pg)))) ++ rest) ⊆
      p.spare (t.blocks m ++ rest) := by
  refine p.spare_subset fun g hg => ?_
  rw [framesOf_perm ((t.blocks_setPage_of_none hl hpg pg).append_right rest)]
  exact mem_framesOf_cons.2 (.inr hg)

/-! ## Tables that grow -/

/-- The tables of `n` stay in their frames, and what `n'` has besides lies in frames that were
spare. -/
structure Grows (p : FramePool) (u : PageTable) (rest : List Block) (n n' : TableMap) : Prop where
  spare_subset : p.spare (u.blocks n' ++ rest) ⊆ p.spare (u.blocks n ++ rest)
  table_eq : ∀ i l, n i = some l → ∃ l', n' i = some l' ∧ l'.frame = l.frame
  table_spare : ∀ i l, n i = none → n' i = some l → l.frame ∈ p.spare (u.blocks n ++ rest)
  page_spare : ∀ i j pg, n.page i j = none → n'.page i j = some pg →
    pg.frame ∈ p.spare (u.blocks n ++ rest)

namespace Grows

theorem refl (p : FramePool) (u : PageTable) (rest : List Block) (n : TableMap) :
    Grows p u rest n n where
  spare_subset := subset_rfl
  table_eq i l hl := ⟨l, hl, rfl⟩
  table_spare i l hnone hl := by simp [hnone] at hl
  page_spare i j pg hnone hpg := by simp [hnone] at hpg

variable (h : Grows p u rest n n')
include h

theorem open_slot (hi : n' i = none) (hf : f ∈ p.spare (u.blocks n' ++ rest)) :
    Grows p u rest n (n'.setSlot i (some (.vacant f))) where
  spare_subset := (u.spare_setSlot_subset p rest hi _).trans h.spare_subset
  table_eq i' l hl := by
    obtain ⟨l', hl', hframe⟩ := h.table_eq i' l hl
    have hne : i' ≠ i := fun heq => by simp [← heq, hl'] at hi
    exact ⟨l', by rw [TableMap.setSlot_of_ne _ _ hne, hl'], hframe⟩
  table_spare i' l hnone hl := by
    by_cases hii : i' = i
    · rw [hii, TableMap.setSlot_self, Option.some.injEq] at hl
      rw [← hl]
      exact h.spare_subset hf
    · rw [TableMap.setSlot_of_ne _ _ hii] at hl
      exact h.table_spare i' l hnone hl
  page_spare i' j pg hnone hpg := by
    rw [n'.page_setSlot_vacant hi] at hpg
    exact h.page_spare i' j pg hnone hpg

theorem place_page (hl : n' i = some l) (hpg : l.pages j = none)
    (hf : f ∈ p.spare (u.blocks n' ++ rest)) (writable : Bool) :
    Grows p u rest n (n'.setSlot i (some (l.setPage j (some ⟨f, writable⟩)))) where
  spare_subset := (u.spare_setPage_subset p rest hl hpg _).trans h.spare_subset
  table_eq i' l₀ hl₀ := by
    obtain ⟨l', hl', hframe⟩ := h.table_eq i' l₀ hl₀
    by_cases hii : i' = i
    · subst hii
      obtain rfl := Option.some.inj (hl.symm.trans hl')
      exact ⟨_, TableMap.setSlot_self .., hframe⟩
    · exact ⟨l', by rw [TableMap.setSlot_of_ne _ _ hii, hl'], hframe⟩
  table_spare i' l₀ hnone hl₀ := by
    by_cases hii : i' = i
    · rw [hii, TableMap.setSlot_self, Option.some.injEq] at hl₀
      rw [← hl₀]
      exact h.table_spare i l (hii ▸ hnone) hl
    · rw [TableMap.setSlot_of_ne _ _ hii] at hl₀
      exact h.table_spare i' l₀ hnone hl₀
  page_spare i' j' pg hnone hpg' := by
    rw [n'.page_setPage hl] at hpg'
    split at hpg'
    · obtain rfl := Option.some.inj hpg'
      exact h.spare_subset hf
    · exact h.page_spare i' j' pg hnone hpg'

/-- The frames of the tables are those there were, or were spare. -/
theorem skeleton_subset : u.skeleton n' ⊆ u.skeleton n ∪ p.spare (u.blocks n ++ rest) := by
  rintro f (hf | ⟨i, l', hl', rfl⟩)
  · exact .inl (.inl hf)
  · cases hl : n i with
    | none => exact .inr (h.table_spare i l' hl hl')
    | some l =>
      obtain ⟨l'', hl'', hframe⟩ := h.table_eq i l hl
      obtain rfl := Option.some.inj (hl'.symm.trans hl'')
      exact .inl (.inr ⟨i, l, hl, hframe⟩)

end Grows

/-! ## The walk -/

/-- What a position of the target holds once it was visited: a page with the flags and the bytes that
the source's page had at the start, or what the target had there. -/
def CopiedPage (k k' : Kernel) (old : Option Page) : Option Page → Option Page → Prop
  | some pg, new => ∃ f, new = some ⟨f, pg.writable⟩ ∧ ∀ o < pageSize,
      k'.ram.byte (f * pageSize + o) = k.ram.byte (pg.frame * pageSize + o)
  | none, new => new = old

theorem CopiedPage.congr {old src new : Option Page} (h : CopiedPage k k' old src new)
    (hsame : ∀ pg, new = some pg → k'.ram.SameFrame k''.ram pg.frame) :
    CopiedPage k k'' old src new := by
  cases src with
  | none => exact h
  | some pg =>
    obtain ⟨f, rfl, hbytes⟩ := h
    refine ⟨f, rfl, fun o ho => ?_⟩
    rw [← hbytes o ho]
    exact (hsame _ rfl).byte (Nat.le_add_right _ _) (Nat.add_lt_add_left ho _)

/-- The frames that copying may write to: those of the target's tables, and those that were spare. -/
def copyFrames (p : FramePool) (t u : PageTable) (m n : TableMap) (rest : List Block) : Set Nat :=
  u.skeleton n ∪ p.spare (u.blocks n ++ (t.blocks m ++ rest))

/-- Copying `t`, which shows `m`, into `u`, which showed `n` on the kernel `k`, after the positions
`V` were visited and the slots `S` opened: the target now shows `n'`, on the kernel `k'`. -/
structure Copying (p : FramePool) (t u : PageTable) (m n : TableMap) (rest : List Block) (k : Kernel)
    (V : Set (Fin directorySlots × Fin tableEntries)) (S : Set (Fin directorySlots))
    (n' : TableMap) (k' : Kernel) : Prop where
  held : u.Held k' p n' (t.blocks m ++ rest)
  touches : Kernel.Touches p (copyFrames p t u m n rest) k k'
  grows : Grows p u (t.blocks m ++ rest) n n'
  slots : ∀ i, (n' i).isSome = true ↔ (n i).isSome = true ∨ i ∈ S ∧ (m i).isSome = true
  copied : ∀ i j, (i, j) ∈ V → CopiedPage k k' (n.page i j) (m.page i j) (n'.page i j)
  kept : ∀ i j, (i, j) ∉ V → n'.page i j = n.page i j

namespace Copying

variable {V : Set (Fin directorySlots × Fin tableEntries)} {S : Set (Fin directorySlots)}

theorem start (h : u.Held k p n (t.blocks m ++ rest)) :
    Copying p t u m n rest k ∅ ∅ n k where
  held := h
  touches := Kernel.Touches.refl p _ k
  grows := Grows.refl p u _ n
  slots i := by simp
  copied i j hij := hij.elim
  kept i j _ := rfl

theorem push (h : Copying p t u m n rest k V S n' k') (e : Event) :
    Copying p t u m n rest k V S n' (k'.push e) :=
  ⟨h.held.push e, h.touches.trans (Kernel.Touches.push p _ k' e), h.grows, h.slots, h.copied, h.kept⟩

/-- What may be written to next is among what could be written to at the start. -/
theorem frames_subset (h : Copying p t u m n rest k V S n' k') :
    u.skeleton n' ∪ p.spare (u.blocks n' ++ (t.blocks m ++ rest)) ⊆ copyFrames p t u m n rest :=
  Set.union_subset h.grows.skeleton_subset (h.grows.spare_subset.trans Set.subset_union_right)

/-- Nothing that the source owns is written to. -/
theorem sameFrame (h₀ : u.Held k p n (t.blocks m ++ rest))
    (h : Copying p t u m n rest k V S n' k') (hf : f ∈ framesOf (t.blocks m ++ rest)) :
    k.ram.SameFrame k'.ram f := by
  have hlive : f ∈ framesOf (u.blocks n ++ (t.blocks m ++ rest)) :=
    mem_framesOf_append.2 (.inr hf)
  refine h.touches.sameFrame h₀.holds.sound (h₀.holds.frame_bounds hlive).1 ?_
  rintro (hskeleton | hspare)
  · exact h₀.holds.represents.disjoint_of_append (u.skeleton_subset n hskeleton) hf
  · exact hspare.2.2 hlive

theorem source_shows (h₀ : u.Held k p n (t.blocks m ++ rest)) (ht : t.Shows k.ram m)
    (h : Copying p t u m n rest k V S n' k') : t.Held k' p m (u.blocks n' ++ rest) where
  shows := ht.congr fun _ hf =>
    h.sameFrame h₀ (mem_framesOf_append.2 (.inl (t.skeleton_subset m hf)))
  holds := h.held.holds.perm (by
    rw [← List.append_assoc, ← List.append_assoc]
    exact List.perm_append_comm.append_right rest)

/-- Opening a slot of the target changes none of its pages. -/
theorem open_slot (h : Copying p t u m n rest k V S n' k') (hsome : (m i).isSome = true)
    (hi : n' i = none) (hf : IsLeast (p.spare (u.blocks n' ++ (t.blocks m ++ rest))) f) :
    Copying p t u m n rest k V (insert i S) (n'.setSlot i (some (.vacant f)))
      (u.afterOpenSlot p i f k') := by
  have hpage := n'.page_setSlot_vacant hi f
  have htouches : Kernel.Touches p {u.frame, f} k' (u.afterOpenSlot p i f k') :=
    h.held.touches_openSlot hf (by simp) (by simp)
  have hframes : {u.frame, f} ⊆ u.skeleton n' ∪ p.spare (u.blocks n' ++ (t.blocks m ++ rest)) :=
    Set.pair_subset (.inl (.inl rfl)) (.inr hf.1)
  refine ⟨h.held.openSlot hi hf, h.touches.trans (htouches.mono (hframes.trans h.frames_subset)),
    h.grows.open_slot hi hf.1, fun i' => ?_, fun i' j hij => ?_,
    fun i' j hij => (hpage i' j).trans (h.kept i' j hij)⟩
  · by_cases hii : i' = i
    · subst hii
      simp [hsome]
    · rw [TableMap.setSlot_of_ne _ _ hii, h.slots i']
      simp [hii]
  · rw [hpage]
    exact (h.copied i' j hij).congr fun pg hpg => h.held.page_sameFrame hpg htouches hframes

/-- Copying a page fills the position that was visited. -/
theorem copy_page (h₀ : u.Held k p n (t.blocks m ++ rest))
    (h : Copying p t u m n rest k V S n' k') (hl : n' i = some l) (hpg : l.pages j = none)
    {pg : Page} (hsource : m.page i j = some pg)
    (hf : IsLeast (p.spare (u.blocks n' ++ (t.blocks m ++ rest))) f) :
    Copying p t u m n rest k (insert (i, j) V) S
      (n'.setSlot i (some (l.setPage j (some ⟨f, pg.writable⟩))))
      (afterCopyPage p l j pg.frame ⟨f, pg.writable⟩ k') := by
  have hs : pg.frame ∈ framesOf (t.blocks m ++ rest) :=
    mem_framesOf_append.2 (.inl (t.page_mem_blocks hsource))
  have hpage := n'.page_setPage hl j (some ⟨f, pg.writable⟩)
  have htouches := h.held.touches_copyPage hl j hs hf pg.writable
  have hleaf : l.frame ∈ u.skeleton n' := .inr ⟨i, l, hl, rfl⟩
  have hframes : {l.frame, f} ⊆ u.skeleton n' ∪ p.spare (u.blocks n' ++ (t.blocks m ++ rest)) :=
    Set.pair_subset (.inl hleaf) (.inr hf.1)
  refine ⟨h.held.copyPage hl hpg hs hf pg.writable,
    h.touches.trans (htouches.mono (hframes.trans h.frames_subset)),
    h.grows.place_page hl hpg hf.1 pg.writable, fun i' => ?_, fun i' j' hij => ?_,
    fun i' j' hij => ?_⟩
  · rw [← h.slots i']
    by_cases hii : i' = i
    · subst hii
      rw [TableMap.setSlot_self, hl]
      rfl
    · rw [TableMap.setSlot_of_ne _ _ hii]
  · rw [hpage]
    split
    · next heq =>
      obtain ⟨rfl, rfl⟩ := heq
      rw [hsource]
      refine ⟨f, rfl, fun o ho => ?_⟩
      rw [h.held.byte_copyPage hl j' hs hf pg.writable ho]
      exact (h.sameFrame h₀ hs).byte (Nat.le_add_right _ _) (Nat.add_lt_add_left ho _)
    · next hne =>
      have hold : (i', j') ∈ V := hij.resolve_left fun heq => hne (Prod.mk.inj heq)
      exact (h.copied i' j' hold).congr fun pg' hpg' =>
        h.held.page_sameFrame hpg' htouches hframes
  · rw [hpage, if_neg fun heq => hij (.inl (by rw [heq.1, heq.2]))]
    exact h.kept i' j' fun hold => hij (.inr hold)

/-- Positions without a page in the source count as visited. -/
theorem skip {V' : Set (Fin directorySlots × Fin tableEntries)}
    (h : Copying p t u m n rest k V S n' k') (hsub : V ⊆ V')
    (hnone : ∀ i j, (i, j) ∈ V' → (i, j) ∉ V → m.page i j = none) :
    Copying p t u m n rest k V' S n' k' := by
  refine ⟨h.held, h.touches, h.grows, h.slots, fun i j hmem => ?_,
    fun i j hmem => h.kept i j fun hold => hmem (hsub hold)⟩
  by_cases hold : (i, j) ∈ V
  · exact h.copied i j hold
  · rw [hnone i j hmem hold]
    exact h.kept i j hold

/-- A slot that is open already, or empty in the source, counts as opened. -/
theorem skip_slot (h : Copying p t u m n rest k V S n' k')
    (hi : (m i).isSome = true → (n' i).isSome = true) :
    Copying p t u m n rest k V (insert i S) n' k' := by
  refine ⟨h.held, h.touches, h.grows, fun i' => ?_, h.copied, h.kept⟩
  rw [h.slots i']
  constructor
  · rintro (hn | ⟨hS, hm⟩)
    · exact .inl hn
    · exact .inr ⟨.inr hS, hm⟩
  · rintro (hn | ⟨rfl | hS, hm⟩)
    · exact .inl hn
    · exact (h.slots i').1 (hi hm)
    · exact .inr ⟨hS, hm⟩

/-! ## The order of the walk -/

/-- The positions come before all others: those in lower slots first, and in a slot those of lower
entries. -/
def Initial (V : Set (Fin directorySlots × Fin tableEntries)) : Prop :=
  ∀ x ∈ V, ∀ y ∉ V, x.1 < y.1 ∨ x.1 = y.1 ∧ x.2 < y.2

/-- The positions of the slots outside `is`. -/
def visitedSlots (is : List (Fin directorySlots)) : Set (Fin directorySlots × Fin tableEntries) :=
  {x | x.1 ∉ is}

/-- The positions of the slots outside `is`, less those of slot `i` that are among `js`. -/
def visitedEntries (i : Fin directorySlots) (is : List (Fin directorySlots))
    (js : List (Fin tableEntries)) : Set (Fin directorySlots × Fin tableEntries) :=
  {x | x.1 ∉ is ∧ (x.1 = i → x.2 ∉ js)}

theorem insert_visitedEntries {is : List (Fin directorySlots)} {js : List (Fin tableEntries)}
    (hi : i ∉ is) (hj : j ∉ js) :
    insert (i, j) (visitedEntries i is (j :: js)) = visitedEntries i is js := by
  ext ⟨i', j'⟩
  simp only [visitedEntries, Set.mem_insert_iff, Set.mem_ofPred_eq, Prod.mk.injEq, List.mem_cons,
    not_or]
  constructor
  · rintro (⟨rfl, rfl⟩ | ⟨hi', hj'⟩)
    · exact ⟨hi, fun _ => hj⟩
    · exact ⟨hi', fun heq => (hj' heq).2⟩
  · rintro ⟨hi', hj'⟩
    by_cases heq : i' = i ∧ j' = j
    · exact .inl heq
    · exact .inr ⟨hi', fun hii => ⟨fun hjj => heq ⟨hii, hjj⟩, hj' hii⟩⟩

theorem visitedEntries_finRange (i : Fin directorySlots) (is : List (Fin directorySlots)) :
    visitedEntries i is (List.finRange tableEntries) = visitedSlots (i :: is) := by
  ext ⟨i', j'⟩
  simp [visitedEntries, visitedSlots, and_comm]

theorem visitedEntries_nil (i : Fin directorySlots) (is : List (Fin directorySlots)) :
    visitedEntries i is [] = visitedSlots is := by
  ext ⟨i', j'⟩
  simp [visitedEntries, visitedSlots]

/-- What is still to come of a walk through all numbers has no number twice. -/
theorem not_mem_of_suffix {c : Nat} {x : Fin c} {xs : List (Fin c)}
    (h : x :: xs <:+ List.finRange c) : x ∉ xs :=
  (List.nodup_cons.1 (h.sublist.nodup (List.nodup_finRange c))).1

theorem suffix_of_cons {c : Nat} {x : Fin c} {xs : List (Fin c)}
    (h : x :: xs <:+ List.finRange c) : xs <:+ List.finRange c :=
  (List.suffix_cons x xs).trans h

/-- A number that is not to come any more is below those that are. -/
theorem lt_of_suffix {c : Nat} {xs : List (Fin c)} (h : xs <:+ List.finRange c) {x y : Fin c}
    (hx : x ∉ xs) (hy : y ∈ xs) : x < y := by
  obtain ⟨before, hsplit⟩ := h
  have hsorted := List.pairwise_lt_finRange c
  have hmem := List.mem_finRange x
  rw [← hsplit] at hsorted hmem
  have hbefore : x ∈ before := (List.mem_append.1 hmem).resolve_right hx
  exact (List.pairwise_append.1 hsorted).2.2 x hbefore y hy

theorem initial_visitedEntries {is : List (Fin directorySlots)} {js : List (Fin tableEntries)}
    (his : i :: is <:+ List.finRange directorySlots) (hjs : js <:+ List.finRange tableEntries) :
    Initial (visitedEntries i is js) := by
  intro x ⟨hx, hxj⟩ y hy
  by_cases hlater : y.1 ∈ is
  · exact .inl (lt_of_suffix (suffix_of_cons his) hx hlater)
  · -- then `y` is an entry to come of the slot that the walk is in
    have hslot : y.1 = i ∧ y.2 ∈ js := by simpa [visitedEntries, hlater] using hy
    by_cases hxi : x.1 = i
    · exact .inr ⟨hxi.trans hslot.1.symm, lt_of_suffix hjs (hxj hxi) hslot.2⟩
    · have hout : x.1 ∉ i :: is := by simp [hxi, hx]
      exact .inl (lt_of_suffix his hout (hslot.1 ▸ List.mem_cons_self))

theorem initial_visitedSlots {is : List (Fin directorySlots)}
    (his : i :: is <:+ List.finRange directorySlots) : Initial (visitedSlots (i :: is)) := by
  rw [← visitedEntries_finRange]
  exact initial_visitedEntries his List.suffix_rfl

/-! ## What the loops come to -/

/-- Copying stopped early: memory ran out while the target lacked a part of the source. What was
copied stays, and it is what comes first. -/
def Stopped (p : FramePool) (t u : PageTable) (m n : TableMap) (rest : List Block) (k : Kernel)
    (cause : Refusal) (k' : Kernel) : Prop :=
  cause = .outOfMemory ∧ ∃ V S n', Copying p t u m n rest k V S n' k' ∧ Initial V ∧
    p.spare (u.blocks n' ++ (t.blocks m ++ rest)) = ∅ ∧ n'.Lacks m

/-- Copying halts at a position that is mapped on both sides. -/
def Clashes (m n : TableMap) (cause : Halt) : Prop :=
  cause = .copyTargetMapped ∧ ∃ i j, (m.page i j).isSome = true ∧ (n.page i j).isSome = true

theorem run_copyEntry (h₀ : u.Held k p n (t.blocks m ++ rest)) (ht : t.Shows k.ram m)
    (h : Copying p t u m n rest k V S n' k') (hV : Initial V) (hl : m i = some l) (hi : i ∈ S)
    (hij : (i, j) ∉ V) :
    ((copyEntry l.table u i j).run k').Meets
      (fun _ k'' => ∃ n'', Copying p t u m n rest k (insert (i, j) V) S n'' k'')
      (Stopped p t u m n rest k) (Clashes m n) := by
  have hentry := (h.source_shows h₀ ht).run_entry hl j
  have hpage := TableMap.page_of_slot hl j
  unfold copyEntry
  rw [Transition.run_bind, hentry, andThen_done]
  cases hpg : l.pages j with
  | none =>
    refine .done ⟨n', h.skip (Set.subset_insert _ _) ?_⟩
    rintro i' j' (heq | hmem) hold
    · obtain ⟨rfl, rfl⟩ := Prod.mk.inj heq
      rw [hpage, hpg]
    · exact absurd hmem hold
  | some pg =>
    rw [hpg] at hpage
    have hlt := (ht.leaf_shows i l hl).page_lt j pg hpg
    obtain ⟨l', hl'⟩ := Option.isSome_iff_exists.1 ((h.slots i).2 (.inr ⟨hi, by rw [hl]; rfl⟩))
    simp only [entryOf_some, pg.frame?_entry hlt, Page.flags_entry]
    cases hpg' : l'.pages j with
    | some pg' =>
      have hkept := h.kept i j hij
      rw [TableMap.page_of_slot hl', hpg'] at hkept
      rw [h.held.run_copyPage_of_open hl', hpg', Option.isSome_some, if_pos rfl]
      exact .halted ⟨rfl, i, j, by rw [hpage]; rfl, by rw [← hkept]; rfl⟩
    | none =>
      have hs : pg.frame ∈ framesOf (t.blocks m ++ rest) :=
        mem_framesOf_append.2 (.inl (t.page_mem_blocks hpage))
      rcases p.spare_cases (u.blocks n' ++ (t.blocks m ++ rest)) with hnone | ⟨f, hf⟩
      · rw [h.held.run_copyPage_exhausted hl' hpg' hnone]
        refine .refused ⟨rfl, V, S, n', h.push _, hV, hnone, .inr ⟨i, j, ?_, ?_⟩⟩
        · rw [hpage]
          rfl
        · rw [TableMap.page_of_slot hl', hpg']
      · rw [h.held.run_copyPage hl' hpg' hs hf]
        exact .done ⟨_, h.copy_page h₀ hl' hpg' hpage hf⟩

/-- Where the copy of a second-level table stands when the entries `js` are still to come. Every entry
is visited once, so the target has there what it had at the start. -/
def AtEntry (p : FramePool) (t u : PageTable) (m n : TableMap) (rest : List Block) (k : Kernel)
    (i : Fin directorySlots) (is : List (Fin directorySlots)) (S : Set (Fin directorySlots))
    (js : List (Fin tableEntries)) (k' : Kernel) : Prop :=
  js <:+ List.finRange tableEntries ∧
    ∃ n', Copying p t u m n rest k (visitedEntries i is js) S n' k'

theorem atEntry_start {is : List (Fin directorySlots)}
    (h : Copying p t u m n rest k (visitedSlots (i :: is)) S n' k') :
    AtEntry p t u m n rest k i is S (List.finRange tableEntries) k' :=
  ⟨List.suffix_rfl, n', by rwa [visitedEntries_finRange]⟩

theorem AtEntry.step (h₀ : u.Held k p n (t.blocks m ++ rest)) (ht : t.Shows k.ram m)
    {is : List (Fin directorySlots)} (his : i :: is <:+ List.finRange directorySlots)
    (hl : m i = some l) (hi : i ∈ S) {js : List (Fin tableEntries)}
    (h : AtEntry p t u m n rest k i is S (j :: js) k') :
    ((copyEntry l.table u i j).run k').Meets (fun _ => AtEntry p t u m n rest k i is S js)
      (Stopped p t u m n rest k) (Clashes m n) := by
  obtain ⟨hjs, n', hcopying⟩ := h
  have hrun := run_copyEntry h₀ ht hcopying (initial_visitedEntries his hjs) hl hi (j := j)
    fun hmem => hmem.2 rfl List.mem_cons_self
  rw [insert_visitedEntries (not_mem_of_suffix his) (not_mem_of_suffix hjs)] at hrun
  exact hrun.mono (fun _ _ hdone => ⟨suffix_of_cons hjs, hdone⟩) (fun _ _ hR => hR)
    (fun _ hH => hH)

/-- Copying the entries of one second-level table. -/
theorem run_entries (h₀ : u.Held k p n (t.blocks m ++ rest)) (ht : t.Shows k.ram m)
    {is : List (Fin directorySlots)} (his : i :: is <:+ List.finRange directorySlots)
    (h : Copying p t u m n rest k (visitedSlots (i :: is)) S n' k') (hl : m i = some l)
    (hi : i ∈ S) :
    (((List.finRange tableEntries).forM (copyEntry l.table u i)).run k').Meets
      (fun _ k'' => ∃ n'', Copying p t u m n rest k (visitedSlots is) S n'' k'')
      (Stopped p t u m n rest k) (Clashes m n) := by
  have hloop := Transition.Meets.forM (I := AtEntry p t u m n rest k i is S)
    (fun _ _ _ => AtEntry.step h₀ ht his hl hi) _ k' h.atEntry_start
  refine hloop.mono ?_ (fun _ _ hR => hR) (fun _ hH => hH)
  rintro _ k'' ⟨-, n'', hdone⟩
  exact ⟨n'', by rwa [visitedEntries_nil] at hdone⟩

theorem run_openSlot {H : Halt → Prop} (h : Copying p t u m n rest k V S n' k') (hV : Initial V)
    (hsome : (m i).isSome = true) :
    ((u.openSlot i.val).run k').Meets
      (fun _ k'' => ∃ n'', Copying p t u m n rest k V (insert i S) n'' k'')
      (Stopped p t u m n rest k) H := by
  cases hl : n' i with
  | some l =>
    rw [h.held.run_openSlot_of_open hl]
    exact .done ⟨n', h.skip_slot (by simp [hl])⟩
  | none =>
    rcases p.spare_cases (u.blocks n' ++ (t.blocks m ++ rest)) with hnone | ⟨f, hf⟩
    · rw [h.held.run_openSlot_exhausted hl hnone]
      exact .refused ⟨rfl, V, S, n', h.push _, hV, hnone, .inl ⟨i, hsome, hl⟩⟩
    · rw [h.held.run_openSlot hl hf]
      exact .done ⟨_, h.open_slot hsome hl hf⟩

/-- Copying one slot. -/
theorem run_copySlot (h₀ : u.Held k p n (t.blocks m ++ rest)) (ht : t.Shows k.ram m)
    {is : List (Fin directorySlots)} (his : i :: is <:+ List.finRange directorySlots)
    (h : Copying p t u m n rest k (visitedSlots (i :: is)) S n' k') :
    ((t.copySlot u i).run k').Meets
      (fun _ k'' => ∃ n'', Copying p t u m n rest k (visitedSlots is) (insert i S) n'' k'')
      (Stopped p t u m n rest k) (Clashes m n) := by
  have hsource := h.source_shows h₀ ht
  unfold copySlot
  rw [Transition.run_bind, hsource.run_slot, andThen_done]
  cases hl : m i with
  | none =>
    have hskip := h.skip_slot (i := i) (by simp [hl])
    refine .done ⟨n', hskip.skip (fun x hx hmem => hx (List.mem_cons_of_mem i hmem)) ?_⟩
    intro i' j hmem hnot
    have hii : i' = i := by
      by_contra hne
      exact hnot fun hcons => (List.mem_cons.1 hcons).elim hne hmem
    rw [hii, TableMap.page, hl]
    rfl
  | some l =>
    refine Transition.Meets.bind (Transition.Meets.discard
      (h.run_openSlot (initial_visitedSlots his) (by rw [hl]; rfl))) ?_
    rintro _ k'' ⟨n'', hopen⟩
    have hheld := hopen.source_shows h₀ ht
    have hreach := hheld.holds.run_reachFrame (hheld.leaf_mem hl)
    refine Transition.Meets.bind (x := Op.reachFrame l.table.frame) (P := fun _ s => s = k'') ?_ ?_
    · rw [show l.table.frame = frameAt l.frame from rfl, hreach]
      exact .done rfl
    · rintro _ _ rfl
      exact run_entries h₀ ht his hopen hl (Set.mem_insert i S)

/-- Where the copy of a table stands when the slots `is` are still to come. -/
def AtSlot (p : FramePool) (t u : PageTable) (m n : TableMap) (rest : List Block) (k : Kernel)
    (is : List (Fin directorySlots)) (k' : Kernel) : Prop :=
  is <:+ List.finRange directorySlots ∧
    ∃ n', Copying p t u m n rest k (visitedSlots is) {i | i ∉ is} n' k'

theorem atSlot_start (h : u.Held k p n (t.blocks m ++ rest)) :
    AtSlot p t u m n rest k (List.finRange directorySlots) k := by
  refine ⟨List.suffix_rfl, n, ?_⟩
  have hvisited : visitedSlots (List.finRange directorySlots) = ∅ := by
    ext x
    simp [visitedSlots]
  have hopened : {i' | i' ∉ List.finRange directorySlots} = ∅ := by
    ext i'
    simp
  rw [hvisited, hopened]
  exact .start h

theorem insert_visited {is : List (Fin directorySlots)} (hout : i ∉ is) :
    insert i {i' | i' ∉ i :: is} = {i' | i' ∉ is} := by
  ext i'
  by_cases hi : i' = i
  · simp [hi, hout]
  · simp [hi]

theorem AtSlot.step (h₀ : u.Held k p n (t.blocks m ++ rest)) (ht : t.Shows k.ram m)
    {is : List (Fin directorySlots)} (h : AtSlot p t u m n rest k (i :: is) k') :
    ((t.copySlot u i).run k').Meets (fun _ => AtSlot p t u m n rest k is)
      (Stopped p t u m n rest k) (Clashes m n) := by
  obtain ⟨his, n', hcopying⟩ := h
  have hrun := run_copySlot h₀ ht his hcopying
  rw [insert_visited (not_mem_of_suffix his)] at hrun
  exact hrun.mono (fun _ _ hdone => ⟨suffix_of_cons his, hdone⟩) (fun _ _ hR => hR) (fun _ hH => hH)

end Copying

/-- Copying a whole table. -/
theorem run_copyTo (h₀ : u.Held k p n (t.blocks m ++ rest)) (ht : t.Shows k.ram m) :
    ((t.copyTo u).run k).Meets
      (fun _ k' => ∃ n', Copying p t u m n rest k Set.univ Set.univ n' k')
      (Copying.Stopped p t u m n rest k) (Copying.Clashes m n) := by
  have hloop := Transition.Meets.forM (I := Copying.AtSlot p t u m n rest k)
    (fun _ _ _ => Copying.AtSlot.step h₀ ht) _ k (Copying.atSlot_start h₀)
  refine hloop.mono ?_ (fun _ _ hR => hR) (fun _ hH => hH)
  rintro _ k' ⟨-, n', hdone⟩
  have hvisited : Copying.visitedSlots [] = Set.univ := by
    ext x
    simp [Copying.visitedSlots]
  have hopened : {i' : Fin directorySlots | i' ∉ []} = Set.univ := by
    ext i'
    simp
  rw [hvisited, hopened] at hdone
  exact ⟨n', hdone⟩

end PageTable

end SoftPaging
