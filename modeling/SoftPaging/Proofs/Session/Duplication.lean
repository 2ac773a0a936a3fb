import Mathlib
import SoftPaging.Proofs.Session.Spaces

/-!
# Copying an address space of a session

A copy costs one frame for its directory, one for each second-level table and one for each resident
page (`AddressSpace.copyCost`). In every session that a client can come to, a copy is granted exactly
when that many frames are free. Otherwise memory runs out, and nothing is left of the attempt
(`copySpace_all_or_nothing`). What is granted is a faithful clone in frames that were free, next to
a source that is what it was (`copySpace_faithful`).
-/

namespace SoftPaging

open Outcome

variable {p : FramePool}

namespace AddressSpace

variable {sp : AddressSpace} {ram : Ram} {m : TableMap}

/-- How many frames a copy of the space takes. -/
def copyCost (sp : AddressSpace) (ram : Ram) : Nat :=
  1 + (sp.table.leavesIn ram).length + (sp.table.mappingsIn ram).length

theorem copyCost_eq (h : sp.table.Shows ram m) : sp.copyCost ram = 1 + frameCount m.blocks := by
  unfold copyCost
  rw [h.length_leavesIn, h.length_mappingsIn, m.frameCount_blocks, Nat.add_assoc]

end AddressSpace

namespace Session

variable {s s' s₀ : Session} {trace : List (Request × Bool)} {sp c : AddressSpace} {i : Nat}

/-- The session `s'` is `s` with a copy of the space `sp` that was made in spare frames. -/
structure Gains (p : FramePool) (s : Session) (sp c : AddressSpace) (s' : Session) : Prop where
  session_eq : ∃ k', s' = (s.withKernel k').keep (.space c)
  copied : c = { sp with table := c.table }
  clone : ∃ rest m', (sp.table.blocks (sp.table.mapIn s.kernel.ram) ++ rest).Perm s.owned ∧
    PageTable.Clone p sp.table (sp.table.mapIn s.kernel.ram) rest s.kernel c.table m' s'.kernel

/-- A copy adds a space, or memory runs out and nothing happened. -/
theorem Sound.copySpace_meets (h : s.Sound p) (ho : s.object i = some (.space sp)) :
    ((perform (.copySpace i)).run s).Meets
      (fun _ s' => (∃ c, s.Gains p sp c s') ∧ sp.copyCost s.kernel.ram ≤ p.freeFrames s.kernel.ram)
      (fun cause s' => cause = .outOfMemory ∧ s.Unchanged p s' ∧
        p.freeFrames s.kernel.ram < sp.copyCost s.kernel.ram) never := by
  have hheld : sp.table.Held s.kernel p (sp.table.mapIn s.kernel.ram) (s.put i none).owned :=
    h.held ho rfl
  have hperm := owned_perm ho (t := sp.table) rfl
  have hcost := AddressSpace.copyCost_eq hheld.shows
  have hrun : (perform (.copySpace i)).run s =
      ((op sp.copy).run s).andThen fun c s' => .done () (s'.keep (.space c)) := run_copySpace ho
  rw [hrun]
  refine Outcome.Meets.andThen (op_meets
    ((AddressSpace.copy_meets hheld).mono ?_ ?_ fun _ hH => hH))
  · rintro c k ⟨hcopied, m', hclone⟩
    refine .done ⟨⟨c, ⟨k, rfl⟩, hcopied, _, m', hperm, hclone⟩, ?_⟩
    rw [hcost]
    exact hclone.fits hheld.holds
  · intro cause k hrefused
    have htouches := hrefused.touches
    rw [p.spare_perm hperm] at htouches
    refine ⟨hrefused.cause_eq, h.unchanged (hrefused.holds.perm hperm) htouches, ?_⟩
    rw [hcost]
    exact hrefused.short

theorem Sound.copySpace_done (h : s.Sound p) (ho : s.object i = some (.space sp))
    (hfits : sp.copyCost s.kernel.ram ≤ p.freeFrames s.kernel.ram) :
    ∃ s', (perform (.copySpace i)).run s = .done () s' := by
  have hmeets := h.copySpace_meets ho
  cases hrun : (perform (.copySpace i)).run s with
  | done answer s' => exact ⟨s', rfl⟩
  | refused cause s' => exact absurd hfits (Nat.not_le.2 (hmeets.of_refused hrun).2.2)
  | halted cause => exact (hmeets.of_halted hrun).elim

/-- A space with one resident page, the topmost of its stack, on a small machine. -/
theorem exists_resident {n : Nat} (hroom : 4 ≤ n) (hle : n ≤ pageSize) :
    ∃ (s₀ s : Session) (sp : AddressSpace), s₀.Booted (pages n) ∧
      Runs (fun s r => r.Permitted (pages n) s) s₀
        [(.newSpace, true), (.fault (some 0) 0 stackPage, true)] s ∧
      s.object 0 = some (.space sp) ∧ sp.copyCost s.kernel.ram = 3 ∧
        (pages n).freeFrames s.kernel.ram = n - 1 - 3 := by
  obtain ⟨s₀, s₁, sp, hboot, -, hmade, hsound, -, halone, -, hvacant⟩ :=
    exists_alone (n := n) (by omega) hle
  obtain ⟨s, hfault, hsound, halone, hcount⟩ := halone.fault_done hsound hroom hvacant
    (reaches_stackPage sp)
  refine ⟨s₀, s, sp, hboot, (Runs.start.granted trivial hmade).granted trivial hfault,
    halone.object_eq, ?_, ?_⟩
  · have hshows := (hsound.held halone.object_eq (t := sp.table) rfl).shows
    rw [AddressSpace.copyCost_eq hshows, hcount]
  · rw [halone.freeFrames_eq hsound, hcount]
    rfl

/-- A copy is granted exactly when its frames are free. When they are not, it is refused for want of
memory and changes nothing, wherever in the walk memory ran out. -/
theorem copySpace_all_or_nothing (hboot : s₀.Booted p)
    (hruns : Runs (fun s r => r.Permitted p s) s₀ trace s) (ho : s.object i = some (.space sp)) :
    ((∃ s', (perform (.copySpace i)).run s = .done () s') ↔
        sp.copyCost s.kernel.ram ≤ p.freeFrames s.kernel.ram) ∧
      (p.freeFrames s.kernel.ram < sp.copyCost s.kernel.ram →
        ∃ s', (perform (.copySpace i)).run s = .refused .outOfMemory s' ∧ s.Unchanged p s') := by
  have hsound := hruns.sound (fun _ _ hr => hr) hboot.sound
  have hmeets := hsound.copySpace_meets ho
  refine ⟨⟨fun hdone => ?_, hsound.copySpace_done ho⟩, fun hshort => ?_⟩
  · obtain ⟨s', hrun⟩ := hdone
    exact (hmeets.of_done hrun).2
  cases hrun : (perform (.copySpace i)).run s with
  | done answer s' => exact absurd (hmeets.of_done hrun).2 (Nat.not_le.2 hshort)
  | refused cause s' =>
    obtain ⟨rfl, hunchanged, -⟩ := hmeets.of_refused hrun
    exact ⟨s', rfl, hunchanged⟩
  | halted cause => exact (hmeets.of_halted hrun).elim

/-- Six pages of RAM are not enough to copy a space with one page: the copy gets its directory and a
second-level table, but no page. On seven pages it is granted. -/
theorem six_pages_copy_refused :
    (∃ s₀ s s' : Session, s₀.Booted (pages 6) ∧ Runs (fun s r => r.Permitted (pages 6) s) s₀
      [(.newSpace, true), (.fault (some 0) 0 stackPage, true)] s ∧
        (perform (.copySpace 0)).run s = .refused .outOfMemory s' ∧ s.Unchanged (pages 6) s') ∧
    ∃ s₀ s s' : Session, s₀.Booted (pages 7) ∧ Runs (fun s r => r.Permitted (pages 7) s) s₀
      [(.newSpace, true), (.fault (some 0) 0 stackPage, true)] s ∧
        (perform (.copySpace 0)).run s = .done () s' := by
  constructor
  · obtain ⟨s₀, s, sp, hboot, hruns, ho, hcost, hfree⟩ := exists_resident (n := 6)
      (by decide) (by decide)
    have hshort : (pages 6).freeFrames s.kernel.ram < sp.copyCost s.kernel.ram := by
      rw [hcost, hfree]
      decide
    obtain ⟨s', hrun, hunchanged⟩ := (copySpace_all_or_nothing hboot hruns ho).2 hshort
    exact ⟨s₀, s, s', hboot, hruns, hrun, hunchanged⟩
  · obtain ⟨s₀, s, sp, hboot, hruns, ho, hcost, hfree⟩ := exists_resident (n := 7)
      (by decide) (by decide)
    have hfits : sp.copyCost s.kernel.ram ≤ (pages 7).freeFrames s.kernel.ram := by
      rw [hcost, hfree]
    obtain ⟨s', hrun⟩ := (copySpace_all_or_nothing hboot hruns ho).1.2 hfits
    exact ⟨s₀, s, s', hboot, hruns, hrun⟩

/-! ## What a copy is -/

/-- The space `c` of the session `s'` is a copy of what `sp` is in the session `s`, and has nothing in
common with what was there before. -/
structure FaithfulCopy (p : FramePool) (s : Session) (sp : AddressSpace) (s' : Session)
    (c : AddressSpace) : Prop where
  regions_eq : c.regions = sp.regions
  heapStart_eq : c.heapStart = sp.heapStart
  heapEnd_eq : c.heapEnd = sp.heapEnd
  stackTop_eq : c.stackTop = sp.stackTop
  slot_isSome : ∀ j, (c.table.slotIn s'.kernel.ram j).isSome =
    (sp.table.slotIn s.kernel.ram j).isSome
  /-- The flags say, among other things, whether a page is resident. -/
  flags_eq : ∀ a, (c.table.entryIn s'.kernel.ram a).flags = (sp.table.entryIn s.kernel.ram a).flags
  page_eq : ∀ a f, (sp.table.entryIn s.kernel.ram a).frame? = some f →
    ∃ g, (c.table.entryIn s'.kernel.ram a).frame? = some g ∧
      ∀ o < pageSize, s'.kernel.ram.byte (g.val + o) = s.kernel.ram.byte (f.val + o)
  apart : ((Object.space c).blocksIn s'.kernel.ram).Pairwise Block.Apart
  fresh : ∀ f ∈ framesOf ((Object.space c).blocksIn s'.kernel.ram),
    p.isFree s.kernel.ram f = true ∧ f ∉ framesOf s.owned

/-- What a session owned is as it was when an object was added to it. -/
structure Preserves (s s' : Session) (o : Object) : Prop where
  objects_eq : s'.objects = s.objects ++ [some o]
  blocks_eq : s'.blocks = s.blocks
  mmu_eq : s'.mmu = s.mmu
  slot_eq : ∀ o t, some o ∈ s.objects → o.table? = some t → ∀ j,
    t.slotIn s'.kernel.ram j = t.slotIn s.kernel.ram j
  entry_eq : ∀ o t, some o ∈ s.objects → o.table? = some t → ∀ a,
    t.entryIn s'.kernel.ram a = t.entryIn s.kernel.ram a
  /-- The bytes of pages are the same, and those of all other frames that were owned. -/
  byte_eq : ∀ j, j / pageSize ∈ framesOf s.owned → s'.kernel.ram.byte j = s.kernel.ram.byte j

namespace Gains

variable (hgains : s.Gains p sp c s')
include hgains

theorem sameBlocks (h : s.Sound p) : s.kernel.ram.SameBlocks s'.kernel.ram s.owned := by
  obtain ⟨rest, m', hperm, hclone⟩ := hgains.clone
  have htouches := hclone.touches
  rw [p.spare_perm hperm] at htouches
  exact h.holds_owned.sameBlocks_of_spare htouches

theorem preserves (h : s.Sound p) : s.Preserves s' (.space c) := by
  have hsame := hgains.sameBlocks h
  have hshows {o : Object} {t : PageTable} (ho : some o ∈ s.objects) (ht : o.table? = some t) :
      t.Shows s'.kernel.ram (t.mapIn s.kernel.ram) := h.shows_of_sameBlocks hsame ho ht
  obtain ⟨k', rfl⟩ := hgains.session_eq
  refine ⟨rfl, rfl, rfl, fun o t ho ht j => ?_, fun o t ho ht a => ?_, fun j hj => hsame _ hj j rfl⟩
  · rw [((h.good o ho).shows ht).slotIn_eq]
    exact (hshows ho ht).slotIn_eq j
  · rw [((h.good o ho).shows ht).entryIn_eq]
    exact (hshows ho ht).entryIn_eq a

theorem faithful (h : s.Sound p) (ho : s.object i = some (.space sp)) :
    s.FaithfulCopy p sp s' c := by
  have hbefore : sp.table.Shows s.kernel.ram (sp.table.mapIn s.kernel.ram) :=
    (h.held ho (t := sp.table) rfl).shows
  obtain ⟨rest, m', hperm, hclone⟩ := hgains.clone
  have hafter := hclone.held.shows
  have hblocks : (Object.space c).blocksIn s'.kernel.ram = c.table.blocks m' := by
    rw [Object.blocksIn_of_table? (t := c.table) rfl, hafter.mapIn_eq]
  refine ⟨?_, ?_, ?_, ?_, fun j => ?_, fun a => ?_, fun a f hf => ?_, ?_, fun f hf => ?_⟩
  · rw [hgains.copied]
  · rw [hgains.copied]
  · rw [hgains.copied]
  · rw [hgains.copied]
  · rw [hafter.slotIn_eq, hbefore.slotIn_eq, Option.isSome_map, Option.isSome_map]
    exact hclone.slots j
  · exact hclone.flags_entryIn hbefore a
  · exact hclone.frame?_entryIn ⟨hbefore, h.holds_owned.perm hperm.symm⟩ hf
  · rw [hblocks]
    exact (List.pairwise_append.1 hclone.held.holds.represents.apart).1
  · rw [hblocks] at hf
    obtain ⟨hlow, hhigh, hout⟩ := hclone.mem_spare hf
    rw [framesOf_perm hperm] at hout
    exact ⟨(h.holds_owned.represents.isFree_iff hhigh).2 ⟨hlow, hout⟩, hout⟩

end Gains

/-- A copy that is granted is a faithful one in frames of its own, and everything else is as it
was. -/
theorem copySpace_faithful (hboot : s₀.Booted p)
    (hruns : Runs (fun s r => r.Permitted p s) s₀ trace s) (ho : s.object i = some (.space sp))
    (hrun : (perform (.copySpace i)).run s = .done () s') :
    ∃ c, s.FaithfulCopy p sp s' c ∧ s.Preserves s' (.space c) := by
  have hsound := hruns.sound (fun _ _ hr => hr) hboot.sound
  obtain ⟨c, hgains⟩ := ((hsound.copySpace_meets ho).of_done hrun).1
  exact ⟨c, hgains.faithful hsound ho, hgains.preserves hsound⟩

/-- On seven pages of RAM, a space with one page is copied. -/
theorem seven_pages_copy_faithful : ∃ (s₀ s s' : Session) (sp c : AddressSpace),
    s₀.Booted (pages 7) ∧ Runs (fun s r => r.Permitted (pages 7) s) s₀
      [(.newSpace, true), (.fault (some 0) 0 stackPage, true)] s ∧
      s.object 0 = some (.space sp) ∧ (perform (.copySpace 0)).run s = .done () s' ∧
        s.FaithfulCopy (pages 7) sp s' c ∧ s.Preserves s' (.space c) := by
  obtain ⟨s₀, s, sp, hboot, hruns, ho, hcost, hfree⟩ := exists_resident (n := 7)
    (by decide) (by decide)
  have hsound := hruns.sound (fun _ _ hr => hr) hboot.sound
  obtain ⟨s', hrun⟩ := hsound.copySpace_done ho (by rw [hcost, hfree])
  obtain ⟨c, hfaithful, hpreserves⟩ := copySpace_faithful hboot hruns ho hrun
  exact ⟨s₀, s, s', sp, c, hboot, hruns, ho, hrun, hfaithful, hpreserves⟩

end Session

end SoftPaging
