import Mathlib
import SoftPaging.Proofs.Paging.Becomes
import SoftPaging.Proofs.Pool.Alike

/-!
# Page tables on kernels that look alike

An operation on a page table reads its slots and its entries, and copying reads its pages besides. All
of them are bytes of frames that the table owns. So when the kernels differ in frames of others only,
the table is held on both as the same map (`PageTable.HeldAlike`), and every operation comes to the
same on both and leaves them alike.

A frame that is taken on the way is overwritten as a whole before it is used, with zeros or with the
bytes of a page that is alike on both. Nothing that was in it before shows.
-/

namespace SoftPaging

open Outcome
open Transition (Tracks ReadsAlike)

variable {t u : PageTable} {k k' : Kernel} {p : FramePool} {X : Set Nat} {m n : TableMap}
  {rest live : List Block} {i : Fin directorySlots} {j : Fin tableEntries} {l : Leaf} {f : Nat}

/-! ## Writing words -/

/-- A word store outside the reserved frames leaves the records alone. -/
theorem FramePool.Sound.byte_storeWord (hp : p.Sound) (ram : Ram) {i : Nat} (w : UInt32)
    (hi : p.reserved * pageSize ≤ i) {j : Nat} (hj : p.IsRecord j) :
    (ram.storeWord i w).byte j = ram.byte j := by
  have hrecord := hp.record_lt hj
  refine Ram.byte_storeWord_of_disjoint ram w (.inl ?_)
  simp only [pageSize] at *
  omega

namespace Kernel.Alike

theorem tracks_setEntry (h : k.Alike p X k') (hp : p.Sound) {leaf : EntryTable}
    (hlow : p.reserved * pageSize ≤ leaf.frame.val) (j : Fin tableEntries) (e : PageEntry) :
    (leaf.setEntry j e).Tracks (Alike p X) k k' :=
  (h.reads_reachFrame _).tracks_bind h fun _ _ =>
    h.tracks_onRam (Ram.writes_storeWord _ _) fun _ hj =>
      hp.byte_storeWord _ _ (hlow.trans (Nat.le_add_right _ _)) hj

theorem tracks_setSlot (h : k.Alike p X k') (hp : p.Sound)
    (hlow : p.reserved * pageSize ≤ t.directory.val) (i : Fin directorySlots)
    (leaf? : Option EntryTable) : (t.setSlot i leaf?).Tracks (Alike p X) k k' :=
  (h.reads_reachFrame _).tracks_bind h fun _ _ =>
    h.tracks_onRam (Ram.writes_storeWord _ _) fun _ hj =>
      hp.byte_storeWord _ _ (hlow.trans (Nat.le_add_right _ _)) hj

/-- A table of its own starts out as zeros. -/
theorem tracks_takeCleared {α : Type} (make : PhysicalAddress → α) (h : k.Alike p X k')
    (hk : k.Holds p live) :
    (do
      let frame ← Op.takeFrame
      Op.onRam fun ram => ram.fill frame.val pageSize 0
      Op.rejectFrameZero frame
      return make frame : Op α).Tracks (Alike p X) k k' := by
  have hk' := hk.alike h
  unfold Tracks
  rcases p.spare_cases live with hnone | ⟨f, hf⟩
  · rw [Transition.run_bind, Transition.run_bind, hk.run_takeFrame_exhausted hnone,
      hk'.run_takeFrame_exhausted hnone]
    exact .refused (h.push _)
  · rw [run_takeCleared make hk hf, run_takeCleared make hk' hf]
    exact .done (h.lendCleared hk hf)

theorem tracks_createTable (h : k.Alike p X k') (hk : k.Holds p live) :
    PageTable.create.Tracks (Alike p X) k k' := h.tracks_takeCleared PageTable.mk hk

end Kernel.Alike

theorem bytesOf_subset_append {own : List Block} (h : X ⊆ bytesOf rest) :
    X ⊆ bytesOf (own ++ rest) := fun _ hn => mem_framesOf_append.2 (.inr (h hn))

namespace PageTable

/-- The page table is held on the first of two kernels that look alike, and what is hidden belongs to
others. -/
structure HeldAlike (t : PageTable) (p : FramePool) (m : TableMap) (rest : List Block) (X : Set Nat)
    (k k' : Kernel) : Prop where
  held : t.Held k p m rest
  alike : k.Alike p X k'
  hidden : X ⊆ bytesOf rest

namespace HeldAlike

variable (h : t.HeldAlike p m rest X k k')
include h

/-- The page table is held on the other kernel as well, as the same map. -/
theorem right : t.Held k' p m rest where
  shows := h.held.shows.congr fun _ hf =>
    h.alike.sameBlocks h.held.holds h.hidden _ (t.skeleton_subset m hf)
  holds := h.held.holds.alike h.alike

theorem sound : p.Sound := h.held.holds.sound

theorem directory_ge : p.reserved * pageSize ≤ t.directory.val := by
  rw [h.held.shows.directory_eq, val_frameAt t.frame_lt]
  exact Nat.mul_le_mul_right _ (h.held.holds.frame_bounds h.held.frame_mem).1

theorem leaf_ge (hl : m i = some l) : p.reserved * pageSize ≤ l.table.frame.val := by
  have hmem := h.held.leaf_mem hl
  rw [Leaf.table, val_frameAt (h.held.holds.frame_lt hmem)]
  exact Nat.mul_le_mul_right _ (h.held.holds.frame_bounds hmem).1

/-- A slot is found by its number, or the number is out of range on both. -/
theorem bind_slotNumbered {α : Type} (slot : Nat)
    {f : Fin directorySlots × Option EntryTable → Op α}
    (hf : ∀ i, (f (i, (m i).map Leaf.table)).Tracks (Kernel.Alike p X) k k') :
    (t.slotNumbered slot >>= f).Tracks (Kernel.Alike p X) k k' := by
  rcases Nat.lt_or_ge slot directorySlots with hslot | hslot
  · obtain ⟨i, rfl⟩ : ∃ i : Fin directorySlots, i.val = slot := ⟨⟨slot, hslot⟩, rfl⟩
    exact .bind_of_run (h.held.run_slotNumbered i) (h.right.run_slotNumbered i) (hf i)
  · unfold Tracks
    rw [Transition.run_bind, Transition.run_bind, run_slotNumbered_of_le h.held hslot,
      run_slotNumbered_of_le h.right hslot]
    exact .halted _

/-! ## Operations on one table -/

theorem tracks_openSlot (slot : Nat) : (t.openSlot slot).Tracks (Kernel.Alike p X) k k' := by
  unfold PageTable.openSlot
  refine h.bind_slotNumbered slot fun i => ?_
  cases hl : m i with
  | some l => exact .pure _ h.alike
  | none =>
    refine (h.alike.tracks_takeCleared EntryTable.mk h.held.holds).bind fun leaf k₁ k₁' _ h₁ => ?_
    refine (h₁.tracks_record _).bind fun _ k₂ k₂' _ h₂ => ?_
    exact (h₂.tracks_setSlot h.sound h.directory_ge _ _).bind fun _ _ _ _ h₃ => .pure _ h₃

theorem tracks_mapPage (slot entry : Nat) (writable : Bool) :
    (t.mapPage slot entry writable).Tracks (Kernel.Alike p X) k k' := by
  unfold PageTable.mapPage
  refine h.bind_slotNumbered slot fun i => ?_
  cases hl : m i with
  | none => exact .halt _
  | some l =>
    refine (h.alike.reads_reachFrame _).tracks_bind h.alike fun _ _ => ?_
    refine (ReadsAlike.lift _).tracks_bind h.alike fun j _ => ?_
    refine .bind_of_run (h.held.run_entry hl j) (h.right.run_entry hl j) ?_
    split
    · exact .pure _ h.alike
    · refine (h.alike.allocateCleared h.held.holds 1).bind fun frame k₁ k₁' _ h₁ => ?_
      refine (ReadsAlike.lift _).tracks_bind h₁ fun new _ => ?_
      refine (h₁.tracks_setEntry h.sound (h.leaf_ge hl) j new).bind fun _ k₂ k₂' _ h₂ => ?_
      exact (h₂.tracks_record _).bind fun _ _ _ _ h₃ => .pure _ h₃

theorem tracks_writeProtect (a : VirtualAddress) :
    (t.writeProtect a).Tracks (Kernel.Alike p X) k k' := by
  unfold PageTable.writeProtect
  refine .bind_of_run (h.held.run_slot _) (h.right.run_slot _) ?_
  cases hl : m a.directoryIndex with
  | none => exact .pure _ h.alike
  | some l =>
    refine .bind_of_run (h.held.run_entry hl _) (h.right.run_entry hl _) ?_
    split
    · exact (h.alike.tracks_setEntry h.sound (h.leaf_ge hl) _ _).bind fun _ _ _ _ h₁ => .pure _ h₁
    · exact .pure _ h.alike

theorem reads_openSlots : t.openSlots.ReadsAlike k k' := by
  refine .of_run h.held.run_openSlots ?_
  rw [h.held.shows.length_leavesIn, ← h.right.shows.length_leavesIn]
  exact h.right.run_openSlots

theorem reads_residentPages : t.residentPages.ReadsAlike k k' := by
  refine .of_run h.held.run_residentPages ?_
  rw [h.held.shows.length_mappingsIn, ← h.right.shows.length_mappingsIn]
  exact h.right.run_residentPages

theorem reads_mappings : t.mappings.ReadsAlike k k' := by
  refine .of_run h.held.run_mappings ?_
  rw [h.held.shows.mappingsIn_eq, ← h.right.shows.mappingsIn_eq]
  exact h.right.run_mappings

end HeldAlike

end PageTable

/-! ## Giving a page table back -/

namespace EntryTable

namespace Held

theorem alike (h : Held k p l rest) (ha : k.Alike p X k') (hX : X ⊆ bytesOf rest) :
    Held k' p l rest :=
  ⟨h.shows.congr (ha.sameBlocks h.holds hX _ (mem_framesOf_self _ _)), h.holds.alike ha⟩

theorem tracks_releaseEntry (h : Held k p l rest) (ha : k.Alike p X k') (hX : X ⊆ bytesOf rest)
    (j : Fin tableEntries) : (l.table.releaseEntry j).Tracks (Kernel.Alike p X) k k' := by
  unfold EntryTable.releaseEntry
  refine .bind_of_run (h.run_entry j) ((h.alike ha hX).run_entry j) ?_
  have hbounds := h.holds.frame_bounds h.frame_mem
  have hlow : p.reserved * pageSize ≤ l.table.frame.val := by
    rw [Leaf.table, val_frameAt h.shows.frame_lt]
    exact Nat.mul_le_mul_right _ hbounds.1
  cases (entryOf (l.pages j)).frame? with
  | none => exact .pure _ ha
  | some frame =>
    exact (ha.freeOwned h.holds frame).bind fun _ _ _ _ h₁ =>
      h₁.tracks_setEntry h.holds.sound hlow j .empty

theorem tracks_release (h : Held k p l rest) (ha : k.Alike p X k') (hX : X ⊆ bytesOf rest) :
    l.table.release.Tracks (Kernel.Alike p X) k k' := by
  unfold EntryTable.release
  refine (ha.reads_reachFrame _).tracks_bind ha fun _ _ => ?_
  refine Transition.Matches.bind (Transition.Matches.forM (I := Emptied k p l rest) ?_ ?_ _ _ _
    h.emptied ha) fun _ k₁ k₁' _ hloop => hloop.2.freeOwned hloop.1.holds _
  · rintro j js s s' ⟨l', hframe, hheld, -, -⟩ hs
    have htable : l.table = l'.table := Leaf.table_congr hframe.symm
    rw [htable]
    exact hheld.tracks_releaseEntry hs hX j
  · intro j js s s₁ hI hrun
    exact of_exists_done hI.step hrun

end Held

end EntryTable

namespace PageTable

theorem Remains.tracks_releaseSlot {k₀ : Kernel} {is : List (Fin directorySlots)}
    (hdir : t.directory = frameAt t.frame) (h : t.Remains k₀ p m rest (i :: is) k)
    (ha : k.Alike p X k') (hX : X ⊆ bytesOf rest) :
    (t.releaseSlot i).Tracks (Kernel.Alike p X) k k' := by
  have hblocks : k.ram.SameBlocks k'.ram
      (⟨t.frame, 1⟩ :: (i :: is).flatMap fun i => leafBlocks (m i)) := ha.sameBlocks h.holds hX
  have hsame := hblocks t.frame (mem_framesOf_self _ _)
  have hslot : (t.slot i).run k' = .done ((m i).map Leaf.table) k' := by
    have hreach := (h.holds.alike ha).run_reachFrame (mem_framesOf_self t.frame _)
    unfold slot
    rw [Transition.run_bind, hdir, hreach, andThen_done, Op.run_look,
      ← h.slotIn_eq i List.mem_cons_self]
    refine congrArg (done · k') (slotIn_congr fun j hlow hhigh => ?_)
    rw [hdir, val_frameAt t.frame_lt] at hlow hhigh
    exact hsame.byte hlow hhigh
  unfold releaseSlot
  refine .bind_of_run (h.run_slot hdir) hslot ?_
  cases hl : m i with
  | none => exact .pure _ ha
  | some l =>
    refine (h.leaf_held hl).tracks_release ha fun n hn => ?_
    exact mem_framesOf_cons.2 (.inr (mem_framesOf_append.2 (.inr (hX hn))))

namespace HeldAlike

variable (h : t.HeldAlike p m rest X k k')
include h

theorem tracks_release : t.release.Tracks (Kernel.Alike p X) k k' := by
  unfold PageTable.release
  refine (h.alike.reads_reachFrame _).tracks_bind h.alike fun _ _ => ?_
  refine Transition.Matches.bind (Transition.Matches.forM (I := t.Remains k p m rest) ?_ ?_ _ _ _
    h.held.remains h.alike) fun _ k₁ k₁' _ hloop => hloop.2.freeOwned hloop.1.holds _
  · intro i is s s' hI hs
    exact hI.tracks_releaseSlot h.held.shows.directory_eq hs h.hidden
  · intro i is s s₁ hI hrun
    exact of_exists_done (hI.step h.held.shows.directory_eq) hrun

theorem tracks_tearDown : t.tearDown.Tracks (Kernel.Alike p X) k k' := by
  unfold PageTable.tearDown
  refine h.reads_openSlots.tracks_bind h.alike fun slots _ => ?_
  refine (h.alike.tracks_record _).bind fun _ k₁ k₁' hrun h₁ => ?_
  cases hrun
  exact (HeldAlike.mk (h.held.push _) h₁ h.hidden).tracks_release

theorem tracks_closeSlot (slot : Nat) : (t.closeSlot slot).Tracks (Kernel.Alike p X) k k' := by
  unfold PageTable.closeSlot
  refine h.bind_slotNumbered slot fun i => ?_
  cases hl : m i with
  | none => exact .pure _ h.alike
  | some l =>
    refine (h.alike.tracks_setSlot h.sound h.directory_ge i none).bind fun _ k₁ k₁' hrun h₁ => ?_
    obtain ⟨-, rfl⟩ := Outcome.done.inj ((h.held.run_setSlot i none).symm.trans hrun)
    refine (h₁.tracks_record _).bind fun _ k₂ k₂' hrun h₂ => ?_
    obtain ⟨-, rfl⟩ := Outcome.done.inj hrun
    exact ((h.held.takeOut hl).2.push _).tracks_release h₂ (bytesOf_subset_append h.hidden)

end HeldAlike

end PageTable

/-! ## Copying a page table -/

/-- A frame that became a copy of one of which nothing is hidden has nothing to hide. -/
theorem Kernel.Alike.lendCopy {s : Nat} (h : k.Alike p X k') (hk : k.Holds p live)
    (hf : IsLeast (p.spare live) f) (hs : s ∈ framesOf live) (hX : ∀ n ∈ X, n / pageSize ≠ s) :
    (k.lendCopy p s f).Alike p X (k'.lendCopy p s f) := by
  have hk' := hk.alike h
  have hlent := h.lend hk (hk.represents.hasRoom_iff.2 hf.1)
  have hram (k : Kernel) : (k.lendCopy p s f).ram =
      (k.lend p ⟨f, 1⟩).ram.copy (s * pageSize) (f * pageSize) pageSize := by
    unfold Kernel.lendCopy
    rw [ram_mapRam]
  refine ⟨?_, ?_, ?_, ?_, fun n hn hvacant => ?_, h.managed⟩
  · unfold Kernel.lendCopy
    rw [directMap?_mapRam, directMap?_mapRam, hlent.directMap_eq]
  · unfold Kernel.lendCopy
    rw [pool?_mapRam, pool?_mapRam, hlent.pool_eq]
  · unfold Kernel.lendCopy
    rw [log_mapRam, log_mapRam, hlent.log_eq]
  · rw [hram, hram, Ram.size_copy, Ram.size_copy, hlent.size_eq]
  by_cases hframe : n / pageSize = f
  · obtain ⟨o, ho, rfl⟩ : ∃ o < pageSize, n = f * pageSize + o :=
      ⟨n % pageSize, Nat.mod_lt n (by decide), by rw [← hframe, Nat.mul_comm, Nat.div_add_mod]⟩
    rw [hk.byte_lendCopy hf hs ho, hk'.byte_lendCopy hf hs ho]
    exact (h.sameFrame hk hs hX).byte (Nat.le_add_right _ _) (Nat.add_lt_add_left ho _)
  · have hsame := hlent.byte_eq n (fun hmem => ?_) fun hfree => hvacant ?_
    · rw [hram, hram, (hk'.sameOff_copy hf hs).byte_eq n hframe,
        (hk.sameOff_copy hf hs).byte_eq n hframe, hsame]
    · rcases hmem with hmem | hmem
      · exact hn hmem
      · exact hframe (by simpa [bytesOf, Block.mem_one] using hmem)
    · rw [(hk.lend hf).vacant_iff] at hfree
      exact (hk.lendCopy hf hs).vacant_iff.2 hfree

namespace PageTable

/-- Copying one page. -/
theorem HeldAlike.tracks_copyPage {s : Nat} (h : u.HeldAlike p n rest X k k') (hl : n i = some l)
    (hs : s ∈ framesOf rest) (hX : ∀ n ∈ X, n / pageSize ≠ s) (j : Fin tableEntries)
    (writable : Bool) :
    (u.copyPage i j (frameAt s) (.mapped writable)).Tracks (Kernel.Alike p X) k k' := by
  unfold Tracks
  cases hpg : l.pages j with
  | some pg =>
    rw [h.held.run_copyPage_of_open hl, h.right.run_copyPage_of_open hl, hpg, Option.isSome_some,
      if_pos rfl, if_pos rfl]
    exact .halted _
  | none =>
    rcases p.spare_cases (u.blocks n ++ rest) with hnone | ⟨f, hf⟩
    · rw [h.held.run_copyPage_exhausted hl hpg hnone, h.right.run_copyPage_exhausted hl hpg hnone]
      exact .refused (h.alike.push _)
    · have hcopy := h.alike.lendCopy h.held.holds hf (mem_framesOf_append.2 (.inr hs)) hX
      rw [h.held.run_copyPage hl hpg hs hf, h.right.run_copyPage hl hpg hs hf]
      exact .done (hcopy.write (Ram.writes_storeWord _ _) (fun _ hj => h.sound.byte_storeWord _ _
        ((h.leaf_ge hl).trans (Nat.le_add_right _ _)) hj) (fun _ hn => .inr hn) hcopy.managed)

namespace Copying

variable {k₀ : Kernel} {V : Set (Fin directorySlots × Fin tableEntries)}
  {S : Set (Fin directorySlots)} {n' : TableMap} {is : List (Fin directorySlots)}
  (h₀ : u.Held k₀ p n (t.blocks m ++ rest)) (ht : t.Shows k₀.ram m) (ha : k.Alike p X k')
  (hX : X ⊆ bytesOf rest)
include h₀ ht ha hX

theorem sourceAlike (h : Copying p t u m n rest k₀ V S n' k) :
    t.HeldAlike p m (u.blocks n' ++ rest) X k k' :=
  ⟨h.source_shows h₀ ht, ha, bytesOf_subset_append hX⟩

theorem tracks_copyEntry (h : Copying p t u m n rest k₀ V S n' k) (hl : m i = some l) (hi : i ∈ S)
    (j : Fin tableEntries) : (copyEntry l.table u i j).Tracks (Kernel.Alike p X) k k' := by
  have hsource := h.sourceAlike h₀ ht ha hX
  unfold copyEntry
  refine .bind_of_run (hsource.held.run_entry hl j) (hsource.right.run_entry hl j) ?_
  cases hpg : l.pages j with
  | none => exact .pure _ ha
  | some pg =>
    have hlt := (ht.leaf_shows i l hl).page_lt j pg hpg
    obtain ⟨l', hl'⟩ := Option.isSome_iff_exists.1 ((h.slots i).2 (.inr ⟨hi, by rw [hl]; rfl⟩))
    have hs : pg.frame ∈ framesOf (t.blocks m) :=
      t.page_mem_blocks ((TableMap.page_of_slot hl j).trans hpg)
    simp only [entryOf_some, pg.frame?_entry hlt, Page.flags_entry]
    refine HeldAlike.tracks_copyPage ⟨h.held, ha, bytesOf_subset_append hX⟩ hl'
      (mem_framesOf_append.2 (.inl hs)) (fun x hx hframe => ?_) j pg.writable
    -- the page belongs to the source, and what is hidden to others
    exact hsource.held.holds.represents.disjoint_of_append hs
      (mem_framesOf_append.2 (.inr (hframe ▸ hX hx)))

theorem tracks_copySlot (h : Copying p t u m n rest k₀ (visitedSlots (i :: is)) S n' k)
    (his : i :: is <:+ List.finRange directorySlots) : (t.copySlot u i).Tracks (Kernel.Alike p X) k k' := by
  have hsource := h.sourceAlike h₀ ht ha hX
  have htarget : u.HeldAlike p n' (t.blocks m ++ rest) X k k' :=
    ⟨h.held, ha, bytesOf_subset_append hX⟩
  unfold copySlot
  refine .bind_of_run (hsource.held.run_slot i) (hsource.right.run_slot i) ?_
  cases hl : m i with
  | none => exact .pure _ ha
  | some l =>
    refine (htarget.tracks_openSlot i.val).discard.bind fun _ k₁ k₁' hrun h₁ => ?_
    obtain ⟨n'', hopen⟩ := (Transition.Meets.discard (H := never)
      (h.run_openSlot (initial_visitedSlots his) (by rw [hl]; rfl))).of_done hrun
    refine (h₁.reads_reachFrame _).tracks_bind h₁ fun _ _ => ?_
    refine Outcome.Matches.mono (Transition.Matches.forM
      (I := AtEntry p t u m n rest k₀ i is (insert i S)) ?_ ?_ _ _ _ hopen.atEntry_start h₁)
      (fun _ _ _ _ h => h.2) fun _ _ _ _ h => h
    · rintro j js s s' ⟨-, n₁, hcopying⟩ hs
      exact hcopying.tracks_copyEntry h₀ ht hs hX hl (Set.mem_insert i S) j
    · intro j js s s₁ hI hrun
      exact (hI.step h₀ ht his hl (Set.mem_insert i S)).of_done hrun

end Copying

/-- Copying a whole table. -/
theorem HeldAlike.tracks_copyTo (h : u.HeldAlike p n (t.blocks m ++ rest) X k k')
    (ht : t.Shows k.ram m) (hX : X ⊆ bytesOf rest) :
    (t.copyTo u).Tracks (Kernel.Alike p X) k k' := by
  refine Outcome.Matches.mono (Transition.Matches.forM
    (I := Copying.AtSlot p t u m n rest k) ?_ ?_ _ _ _ (Copying.atSlot_start h.held) h.alike)
    (fun _ _ _ _ h => h.2) fun _ _ _ _ h => h
  · rintro i is s s' ⟨his, n', hcopying⟩ hs
    exact hcopying.tracks_copySlot h.held ht hs hX his
  · intro i is s s₁ hI hrun
    exact (hI.step h.held ht).of_done hrun

end PageTable

end SoftPaging
