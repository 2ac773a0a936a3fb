import Mathlib
import SoftPaging.Proofs.Paging.Merging
import SoftPaging.Proofs.Space.Operations

/-!
# Copying an address space

Copying makes a page table and copies every page into it. It is granted exactly when the pool has a
frame for the directory, one for each second-level table and one for each page of the source, and the
copy then has these parts at the same positions (`PageTable.Clone`). Otherwise memory runs out
somewhere in the walk, and what was taken for the copy is given back.

The bound is exact because a walk that stops has filled every spare frame, while its target still
lacks a part of the source: so the frames that were free are fewer than the source would need.
-/

namespace SoftPaging

open Outcome

variable {k k' k'' : Kernel} {p : FramePool} {rest : List Block} {m n m' : TableMap}
  {t u : PageTable} {f : Nat}

namespace PageTable

namespace Copying

variable {V : Set (Fin directorySlots × Fin tableEntries)} {S : Set (Fin directorySlots)}

/-- A new table gets no slot and no page but those of its source. -/
theorem under (h : Copying p t u m .vacant rest k V S n k') : n.Under m := h.under_join

/-- A new table is written to in frames that were spare, its directory among them. -/
theorem touches_spare (h : Copying p t u m .vacant rest k V S n k')
    (hframe : u.frame ∈ p.spare (t.blocks m ++ rest)) :
    Kernel.Touches p (p.spare (t.blocks m ++ rest)) k k' := by
  refine h.touches.mono (Set.union_subset ?_ (p.spare_subset fun g hg => ?_))
  · rintro g (rfl | ⟨i, l, hl, -⟩)
    · exact hframe
    · cases hl
  · exact mem_framesOf_append.2 (.inr hg)

/-- A copy that broke off in the walk filled all frames that were left. -/
theorem freeFrames_lt (hk : k.Holds p (t.blocks m ++ rest))
    (h : Copying p t u m .vacant rest k'' V S n k')
    (hnone : p.spare (u.blocks n ++ (t.blocks m ++ rest)) = ∅) (hlacks : n.Lacks m) :
    p.freeFrames k.ram < 1 + frameCount m.blocks := by
  have hfull := h.held.holds.represents.freeFrames_of_full hnone
  have hadd := hk.represents.freeFrames_add h.held.holds.represents hk.sound.reserved_lt.le
  have hfewer := h.under.frameCount_lt hlacks
  simp only [blocks, frameCount_cons, frameCount_append] at hadd
  omega

end Copying

/-- The page table `u` was made as a copy of `t`, which showed `m` on the kernel `k`: it shows `m'`,
with second-level tables in the same slots and pages with the same flags and bytes at the same
positions, and all its frames were spare. -/
structure Clone (p : FramePool) (t : PageTable) (m : TableMap) (rest : List Block) (k : Kernel)
    (u : PageTable) (m' : TableMap) (k' : Kernel) : Prop where
  held : u.Held k' p m' (t.blocks m ++ rest)
  touches : Kernel.Touches p (p.spare (t.blocks m ++ rest)) k k'
  slots : ∀ i, (m' i).isSome = (m i).isSome
  copied : ∀ i j, CopiedPage k k' none (m.page i j) (m'.page i j)

namespace Clone

theorem of_copying (hk : k.Holds p (t.blocks m ++ rest))
    (hcreate : Kernel.Touches p (p.spare (t.blocks m ++ rest)) k k')
    (hframe : u.frame ∈ p.spare (t.blocks m ++ rest))
    (h : Copying p t u m .vacant rest k' Set.univ Set.univ m' k'') :
    Clone p t m rest k u m' k'' where
  held := h.held
  touches := hcreate.trans (h.touches_spare hframe)
  slots i := by
    have hslot : (m' i).isSome = true ↔ (m i).isSome = true := by
      rw [h.slots i]
      simp [TableMap.vacant]
    exact Bool.eq_iff_iff.2 hslot
  copied i j := by
    have hcopied := h.copied i j (Set.mem_univ _)
    cases hpg : m.page i j with
    | none =>
      rw [hpg] at hcopied
      exact hcopied
    | some pg =>
      rw [hpg] at hcopied
      obtain ⟨f, hnew, hbytes⟩ := hcopied
      have hmem : pg.frame ∈ framesOf (t.blocks m ++ rest) := by
        obtain ⟨l, hl, hpg⟩ := TableMap.page_eq_some.1 hpg
        refine mem_framesOf_append.2 (.inl (mem_framesOf_cons.2 (.inr ?_)))
        exact TableMap.mem_framesOf_blocks.2
          ⟨i, l, hl, Leaf.mem_framesOf_blocks.2 (.inr ⟨j, pg, hpg, rfl⟩)⟩
      refine ⟨f, hnew, fun o ho => ?_⟩
      rw [hbytes o ho]
      exact (hk.sameBlocks_of_spare hcreate _ hmem).byte (Nat.le_add_right _ _)
        (Nat.add_lt_add_left ho _)

variable (h : Clone p t m rest k u m' k')
include h

theorem push (e : Event) : Clone p t m rest k u m' (k'.push e) :=
  ⟨h.held.push e, h.touches.trans (Kernel.Touches.push p _ k' e), h.slots, h.copied⟩

/-- A copy has the pages of its source, with their permissions. -/
theorem writable_page (i : Fin directorySlots) (j : Fin tableEntries) :
    (m'.page i j).map Page.writable = (m.page i j).map Page.writable := by
  have hcopied := h.copied i j
  cases hpg : m.page i j with
  | none =>
    rw [hpg] at hcopied
    rw [hcopied]
  | some pg =>
    rw [hpg] at hcopied
    obtain ⟨f, hnew, -⟩ := hcopied
    rw [hnew, Option.map_some, Option.map_some]

theorem isSome_page (i : Fin directorySlots) (j : Fin tableEntries) :
    (m'.page i j).isSome = (m.page i j).isSome := by
  have hsome := congrArg Option.isSome (h.writable_page i j)
  rwa [Option.isSome_map, Option.isSome_map] at hsome

theorem flags_entryIn (hm : t.Shows k.ram m) (a : VirtualAddress) :
    (u.entryIn k'.ram a).flags = (t.entryIn k.ram a).flags := by
  rw [h.held.shows.entryIn_eq, hm.entryIn_eq]
  exact flags_entryOf_congr (h.writable_page _ _)

/-- A page of a copy lies in another frame, with the same bytes. -/
theorem frame?_entryIn (hm : t.Held k p m rest) {a : VirtualAddress} {f : PhysicalAddress}
    (hf : (t.entryIn k.ram a).frame? = some f) :
    ∃ g, (u.entryIn k'.ram a).frame? = some g ∧
      ∀ o < pageSize, k'.ram.byte (g.val + o) = k.ram.byte (f.val + o) := by
  obtain ⟨pg, hpg, rfl⟩ := hm.page_of_frame? hf
  have hcopied := h.copied a.directoryIndex a.tableIndex
  rw [hpg] at hcopied
  obtain ⟨g, hnew, hbytes⟩ := hcopied
  have hlt := hm.holds.frame_lt (hm.page_mem hpg)
  have hlt' := h.held.holds.frame_lt (h.held.page_mem hnew)
  rw [h.held.shows.entryIn_eq, hnew, entryOf_some, Page.frame?_entry _ hlt']
  refine ⟨_, rfl, fun o hoff => ?_⟩
  rw [val_frameAt hlt', val_frameAt hlt]
  exact hbytes o hoff

/-- A copy owns as many frames as its source. -/
theorem frameCount_eq : frameCount m'.blocks = frameCount m.blocks := by
  rw [TableMap.frameCount_blocks, TableMap.frameCount_blocks]
  refine congrArg₂ _ (occupied_congr h.slots) ?_
  exact Finset.sum_congr rfl fun i _ => occupied_congr (h.isSome_page i)

/-- The frames of a copy were free. -/
theorem fits (hk : k.Holds p (t.blocks m ++ rest)) :
    1 + frameCount m.blocks ≤ p.freeFrames k.ram := by
  have hadd := hk.represents.freeFrames_add h.held.holds.represents hk.sound.reserved_lt.le
  have hcopy := h.frameCount_eq
  simp only [blocks, frameCount_cons, frameCount_append] at hadd
  omega

/-- A copy shows what its source shows. -/
theorem image_eq : m'.image k'.ram = m.image k.ram := by
  funext a
  have hcopied := h.copied a.directoryIndex a.tableIndex
  cases hpg : m.page a.directoryIndex a.tableIndex with
  | none =>
    rw [hpg] at hcopied
    rw [TableMap.image_of_not_resident hpg, TableMap.image_of_not_resident hcopied]
  | some pg =>
    rw [hpg] at hcopied
    obtain ⟨f, hnew, hbytes⟩ := hcopied
    rw [TableMap.image_of_page hpg, TableMap.image_of_page hnew]
    exact congrArg some (hbytes _ a.pageOffset_lt)

/-- Every frame of a copy was spare. -/
theorem mem_spare (hf : f ∈ framesOf (u.blocks m')) :
    f ∈ p.spare (t.blocks m ++ rest) := by
  have hlive : f ∈ framesOf (u.blocks m' ++ (t.blocks m ++ rest)) := mem_framesOf_append.2 (.inl hf)
  obtain ⟨hlow, hhigh⟩ := h.held.holds.frame_bounds hlive
  exact ⟨hlow, hhigh, h.held.holds.represents.disjoint_of_append hf⟩

end Clone

end PageTable

namespace AddressSpace

variable {s : AddressSpace}

/-- Memory ran out while a space that shows `m` was copied: the pool did not have the frames that the
copy needs, and only frames that were spare were written to. -/
structure CopyRefused (p : FramePool) (s : AddressSpace) (m : TableMap) (rest : List Block)
    (k : Kernel) (cause : Refusal) (k' : Kernel) : Prop where
  cause_eq : cause = .outOfMemory
  holds : k'.Holds p (s.table.blocks m ++ rest)
  touches : Kernel.Touches p (p.spare (s.table.blocks m ++ rest)) k k'
  short : p.freeFrames k.ram < 1 + frameCount m.blocks

/-- A copy has the regions of its source and a table of its own, or memory ran out and nothing is left
of the attempt. -/
theorem copy_meets (h : s.table.Held k p m rest) :
    (s.copy.run k).Meets
      (fun c k' => c = { s with table := c.table } ∧
        ∃ m', PageTable.Clone p s.table m rest k c.table m' k')
      (CopyRefused p s m rest k) never := by
  unfold copy
  refine Transition.Meets.bind (P := fun fresh k₁ =>
    fresh.table.Held k₁ p .vacant (s.table.blocks m ++ rest) ∧
      fresh.table.frame ∈ p.spare (s.table.blocks m ++ rest) ∧
        Kernel.Touches p (p.spare (s.table.blocks m ++ rest)) k k₁) ?_ ?_
  · refine (create_meets h.holds).mono (fun _ _ hQ => hQ.2.2) ?_ (fun _ hH => hH)
    rintro cause _ ⟨rfl, rfl, hnone⟩
    have hfull := h.holds.represents.freeFrames_of_full hnone
    exact ⟨rfl, h.holds.push _, Kernel.Touches.push p _ k _, by omega⟩
  rintro fresh k₁ ⟨hfresh, hframe, hcreate⟩
  have hsame₁ := h.holds.sameBlocks_of_spare hcreate
  have ht₁ := h.shows.of_sameBlocks hsame₁
  refine Transition.Meets.bind (P := fun _ k₂ => ∃ m', PageTable.Copying p s.table fresh.table m
    .vacant rest k₁ Set.univ Set.univ m' k₂) (Transition.Meets.onRefusal
      ((PageTable.run_copyTo hfresh ht₁).mono (fun _ _ hQ => hQ) (fun _ _ hR => hR) ?_) ?_) ?_
  · -- a new table maps nothing that a copied page could clash with
    rintro cause ⟨-, i, j, -, hmapped⟩
    cases hmapped
  · rintro cause k₂ ⟨rfl, V, S, n, hcopying, -, hnone, hlacks⟩
    have hsource := hcopying.source_shows hfresh ht₁
    have hlogged := hcopying.held.push (.copyFailed (fresh.table.mappingsIn k₂.ram).length
      (s.table.mappingsIn k₂.ram).length .outOfMemory)
    obtain ⟨k₃, hrun, hholds, hback⟩ := destroy_done (s := { s with table := fresh.table }) hlogged
    have htouches := (hcreate.trans (hcopying.touches_spare hframe)).trans
      ((Kernel.Touches.push p _ k₂ _).trans (hback.mono fun g hg => ?_))
    · simp only [Transition.run_bind, hcopying.held.run_residentPages, hsource.run_residentPages,
        andThen_done, Op.run_record, hrun]
      exact .done ⟨rfl, hholds, htouches, hcopying.freeFrames_lt h.holds hnone hlacks⟩
    · -- the tables that are given back lie in frames that the copy had taken
      have hlive : g ∈ framesOf (fresh.table.blocks n) :=
        fresh.table.skeleton_subset n (.inr hg)
      have hbounds := hcopying.held.holds.frame_bounds (mem_framesOf_append.2 (.inl hlive))
      exact ⟨hbounds.1, hbounds.2,
        hcopying.held.holds.represents.disjoint_of_append hlive⟩
  · rintro _ k₂ ⟨m', hcopying⟩
    have hclone := PageTable.Clone.of_copying h.holds hcreate hframe hcopying
    simp only [Transition.run_bind, hcopying.held.run_residentPages, andThen_done, Op.run_record,
      Transition.run_pure]
    exact .done ⟨rfl, m', hclone.push _⟩

/-- A copy of an address space shows what the space shows; when it is refused, every frame that was
owned is as it was, and no other is. -/
theorem copy_becomes (hs : s.Sound) (h : s.table.Held k p m rest) :
    (s.copy.run k).Meets
      (fun s' k' => s'.Sound ∧
        s'.table.Becomes p (s.table.blocks m ++ rest) k (m.image k.ram) k')
      (fun _ k' => k'.Holds p (s.table.blocks m ++ rest) ∧
        k.ram.SameBlocks k'.ram (s.table.blocks m ++ rest)) never := by
  refine (copy_meets h).mono ?_ ?_ fun _ hH => hH
  · rintro c k' ⟨hc, m', hclone⟩
    refine ⟨?_, m', hclone.held, h.holds.sameBlocks_of_spare hclone.touches, hclone.image_eq⟩
    rw [hc]
    exact ⟨hs.stackTop_eq, hs.regions_sound⟩
  · intro cause k' hrefused
    exact ⟨hrefused.holds, h.holds.sameBlocks_of_spare hrefused.touches⟩

end AddressSpace

end SoftPaging
