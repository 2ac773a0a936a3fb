import Mathlib
import SoftPaging.Proofs.Paging.Becomes
import SoftPaging.Proofs.Paging.PageMap
import SoftPaging.Proofs.Pool.Taken

/-!
# Merging one page table into another

Copying a page table into one that has slots and pages of its own takes a frame for each slot that the
target lacks, and one for each page of the source (`PageTable.copyCost`). It is granted just when that
many frames are free, as long as no page is mapped by both. The target then shows the two maps joined
(`TableMap.join`), which is why the bound is exact: a walk that stops has filled every frame, and its
target still lacks a part of the join.

The walk goes through the positions in the order of their addresses, so the pages that were copied when
it stops are the first ones of the source's list of mappings (`Copying.mem_take`).
-/

namespace SoftPaging

open Outcome

/-! ## The first elements of a list -/

/-- Where a property is lost once and for all along a list, the elements that have it are the first
ones. -/
theorem take_countP_eq_filter {α : Type} {P : α → Bool} {l : List α}
    (h : l.Pairwise fun x y => P y = true → P x = true) : l.take (l.countP P) = l.filter P := by
  induction l with
  | nil => simp
  | cons x l ih =>
    obtain ⟨hx, hl⟩ := List.pairwise_cons.1 h
    by_cases hPx : P x = true
    · simp [hPx, ih hl]
    · have hnone : ∀ y ∈ l, ¬ P y = true := fun y hy hPy => hPx (hx y hy hPy)
      simp [hPx, List.countP_eq_zero.2 hnone, List.filter_eq_nil_iff.2 hnone]

/-- Counting positions one after another. -/
theorem countP_finRange {n : Nat} {α : Type} (f : Fin n → Option α) :
    (List.finRange n).countP (fun i => (f i).isSome) = occupied f := by
  rw [← length_filterMap_finRange, List.length_filterMap_eq_countP]

theorem occupied_add {n : Nat} {α β γ : Type} {f : Fin n → Option α} {g : Fin n → Option β}
    {h : Fin n → Option γ} (hsome : ∀ i, (h i).isSome = ((f i).isSome || (g i).isSome))
    (hapart : ∀ i, f i = none ∨ g i = none) : occupied h = occupied f + occupied g := by
  unfold occupied
  rw [← Finset.sum_add_distrib]
  refine Finset.sum_congr rfl fun i _ => ?_
  rw [hsome]
  rcases hapart i with hnone | hnone
  · simp [hnone]
  · simp [hnone]

/-! ## Two maps joined -/

namespace TableMap

variable {m n : TableMap} {i : Fin directorySlots} {j : Fin tableEntries} {writable : Bool}

/-- The slots and pages of two maps together; where both have a table, or a page, it is that of the
first. -/
def join (n m : TableMap) : TableMap := fun i =>
  match n i with
  | some l => some ⟨l.frame, fun j => (l.pages j).or (m.page i j)⟩
  | none => m i

/-- The slots of `m` that are closed in `n`. -/
def absent (n m : TableMap) (i : Fin directorySlots) : Option Leaf :=
  if (n i).isSome then none else m i

theorem isSome_join (n m : TableMap) (i : Fin directorySlots) :
    (n.join m i).isSome = ((n i).isSome || (m i).isSome) := by
  unfold join
  cases n i <;> simp

theorem page_join (n m : TableMap) (i : Fin directorySlots) (j : Fin tableEntries) :
    (n.join m).page i j = (n.page i j).or (m.page i j) := by
  cases hl : n i with
  | some l => simp [page, join, hl]
  | none => simp [page, join, hl]

/-- What the join has more than the first map: the slots that are closed there, and, when no page is
mapped by both, the pages of the second. -/
theorem frameCount_join (h : ∀ i j, n.page i j = none ∨ m.page i j = none) :
    frameCount (n.join m).blocks =
      frameCount n.blocks + (occupied (n.absent m) + m.pageCount) := by
  have htables : (n.join m).tableCount = n.tableCount + occupied (n.absent m) := by
    refine occupied_add (fun i => ?_) fun i => ?_
    · rw [isSome_join]
      cases hl : n i <;> simp [absent, hl]
    · cases hl : n i <;> simp [absent, hl]
  have hpages : (n.join m).pageCount = n.pageCount + m.pageCount := by
    unfold pageCount
    rw [← Finset.sum_add_distrib]
    refine Finset.sum_congr rfl fun i _ => occupied_add (fun j => ?_) (h i)
    rw [page_join, Option.isSome_or]
  rw [frameCount_blocks, frameCount_blocks, htables, hpages]
  omega

theorem card_sdiff_slots (m n : TableMap) :
    (m.pageMap.slots \ n.pageMap.slots).card = occupied (n.absent m) := by
  unfold occupied
  rw [← Finset.card_filter]
  refine congrArg Finset.card (Finset.ext fun i => ?_)
  rw [Finset.mem_sdiff, mem_slots, mem_slots, Finset.mem_filter]
  cases hl : n i <;> simp [absent, hl]

/-- A page that is mapped opens its slot, and no other. -/
theorem Maps.slots_pageMap (h : n.Maps i j writable m) :
    m.pageMap.slots = insert i n.pageMap.slots := by
  ext i'
  rw [Finset.mem_insert, mem_slots, mem_slots]
  by_cases hi : i' = i
  · obtain ⟨f, hpage⟩ := h.mapped
    obtain ⟨l, hl, -⟩ := page_eq_some.1 hpage
    simp [hi, hl]
  · simp [hi, h.slots i' hi]

theorem Maps.keys_pageMap (h : n.Maps i j writable m) :
    m.pageMap.keys = insert (i, j) n.pageMap.keys := by
  ext ⟨i', j'⟩
  rw [Finset.mem_insert, mem_keys, mem_keys, Prod.mk.injEq]
  by_cases hat : i' = i ∧ j' = j
  · obtain ⟨f, hpage⟩ := h.mapped
    simp [hat, hpage]
  · simp [hat, h.kept i' j' hat]

end TableMap

namespace PageTable

variable {t u : PageTable} {k k' : Kernel} {p : FramePool} {m n n' : TableMap} {rest : List Block}
  {i : Fin directorySlots} {j : Fin tableEntries}
  {V : Set (Fin directorySlots × Fin tableEntries)} {S : Set (Fin directorySlots)}

/-! ## What copying costs -/

/-- How many frames copying `t` into `u` takes: one for each slot that is closed in `u`, and one for
each page. -/
def copyCost (t u : PageTable) (ram : Ram) : Nat :=
  (List.finRange directorySlots).countP (fun i => (t.slotIn ram i).isSome && (u.slotIn ram i).isNone) +
    (t.mappingsIn ram).length

theorem copyCost_eq {ram : Ram} (ht : t.Shows ram m) (hu : u.Shows ram n) :
    t.copyCost u ram = occupied (n.absent m) + m.pageCount := by
  have hslots : (fun i => (t.slotIn ram i).isSome && (u.slotIn ram i).isNone) =
      fun i => (n.absent m i).isSome := by
    funext i
    rw [ht.slotIn_eq, hu.slotIn_eq, Option.isSome_map, Option.isNone_map]
    cases hl : n i <;> simp [TableMap.absent, hl]
  rw [copyCost, hslots, countP_finRange, ht.length_mappingsIn]

theorem copyCost_eq_card {ram : Ram} (ht : t.Shows ram m) (hu : u.Shows ram n) :
    t.copyCost u ram = (m.pageMap.slots \ n.pageMap.slots).card + m.pageMap.keys.card := by
  rw [copyCost_eq ht hu, TableMap.card_sdiff_slots, TableMap.card_keys_pageMap]

namespace Copying

/-- The target has no slot and no page but its own and those of the source. -/
theorem under_join (h : Copying p t u m n rest k V S n' k') : n'.Under (n.join m) where
  slot i hi := by
    rw [TableMap.isSome_join, Bool.or_eq_true]
    exact ((h.slots i).1 hi).imp_right And.right
  page i j hij := by
    rw [TableMap.page_join, Option.isSome_or, Bool.or_eq_true]
    by_cases hV : (i, j) ∈ V
    · have hcopied := h.copied i j hV
      cases hpg : m.page i j with
      | some pg => exact .inr rfl
      | none =>
        rw [hpg] at hcopied
        exact .inl (hcopied ▸ hij)
    · exact .inl (h.kept i j hV ▸ hij)

/-- When the walk is through, the target has as many frames as the join. -/
theorem frameCount_eq (h : Copying p t u m n rest k Set.univ Set.univ n' k') :
    frameCount n'.blocks = frameCount (n.join m).blocks := by
  have hslot (i : Fin directorySlots) : (n' i).isSome = (n.join m i).isSome := by
    rw [TableMap.isSome_join, Bool.eq_iff_iff, h.slots i, Bool.or_eq_true]
    simp
  have hpage (i : Fin directorySlots) (j : Fin tableEntries) :
      (n'.page i j).isSome = ((n.join m).page i j).isSome := by
    have hcopied := h.copied i j (Set.mem_univ _)
    rw [TableMap.page_join, Option.isSome_or]
    cases hpg : m.page i j with
    | none =>
      rw [hpg] at hcopied
      rw [show n'.page i j = n.page i j from hcopied]
      simp
    | some pg =>
      rw [hpg] at hcopied
      obtain ⟨f, hnew, -⟩ := hcopied
      simp [hnew]
  rw [TableMap.frameCount_blocks, TableMap.frameCount_blocks]
  refine congrArg₂ _ (occupied_congr hslot) ?_
  exact Finset.sum_congr rfl fun i _ => occupied_congr (hpage i)

/-- Free frames become frames of the target, and nothing else happens to them. -/
theorem freeFrames_add (h₀ : u.Held k p n (t.blocks m ++ rest))
    (h : Copying p t u m n rest k V S n' k') :
    p.freeFrames k.ram + frameCount n.blocks = p.freeFrames k'.ram + frameCount n'.blocks := by
  have hadd := h₀.holds.represents.freeFrames_add h.held.holds.represents
    h₀.holds.sound.reserved_lt.le
  simp only [blocks, frameCount_cons, frameCount_append] at hadd
  omega

/-- A walk that is through found the frames that it takes. -/
theorem copyCost_le (h₀ : u.Held k p n (t.blocks m ++ rest)) (ht : t.Shows k.ram m)
    (hapart : ∀ i j, n.page i j = none ∨ m.page i j = none)
    (h : Copying p t u m n rest k Set.univ Set.univ n' k') :
    t.copyCost u k.ram ≤ p.freeFrames k.ram := by
  have hadd := h.freeFrames_add h₀
  rw [h.frameCount_eq, TableMap.frameCount_join hapart] at hadd
  rw [copyCost_eq ht h₀.shows]
  omega

/-- A walk that stopped did not find them. -/
theorem lt_copyCost (h₀ : u.Held k p n (t.blocks m ++ rest)) (ht : t.Shows k.ram m)
    (hapart : ∀ i j, n.page i j = none ∨ m.page i j = none)
    (h : Copying p t u m n rest k V S n' k')
    (hnone : p.spare (u.blocks n' ++ (t.blocks m ++ rest)) = ∅) (hlacks : n'.Lacks m) :
    p.freeFrames k.ram < t.copyCost u k.ram := by
  have hadd := h.freeFrames_add h₀
  have hfull := h.held.holds.represents.freeFrames_of_full hnone
  have hlacks' : n'.Lacks (n.join m) := by
    refine hlacks.imp (fun ⟨i, hm, hn⟩ => ⟨i, ?_, hn⟩) fun ⟨i, j, hm, hn⟩ => ⟨i, j, ?_, hn⟩
    · rw [TableMap.isSome_join, hm, Bool.or_true]
    · rw [TableMap.page_join, Option.isSome_or, hm, Bool.or_true]
  have hlt := h.under_join.frameCount_lt hlacks'
  rw [TableMap.frameCount_join hapart] at hlt
  rw [copyCost_eq ht h₀.shows]
  omega

end Copying

/-! ## What was copied -/

/-- The mappings `xs` were copied into `u`: each is mapped at the same address, with the same flags, in
a frame that was free and with the same bytes. At the other addresses `u` has the entries it had, and
its pages have the bytes they had. -/
structure Copies (p : FramePool) (u : PageTable) (ram ram' : Ram)
    (xs : List (VirtualAddress × PageEntry)) : Prop where
  copied : ∀ a e, (a, e) ∈ xs → ∃ f g, e.frame? = some f ∧ (u.entryIn ram' a).frame? = some g ∧
    (u.entryIn ram' a).flags = e.flags ∧ g.number.val ∈ p.free ram ∧
      ∀ o < pageSize, ram'.byte (g.val + o) = ram.byte (f.val + o)
  kept : ∀ a : VirtualAddress, (∀ e, (a.pageBase, e) ∉ xs) → u.entryIn ram' a = u.entryIn ram a
  byte_eq : ∀ a f, (u.entryIn ram a).frame? = some f →
    ∀ o < pageSize, ram'.byte (f.val + o) = ram.byte (f.val + o)

namespace Copying

/-- The mappings at the positions that were visited were copied. -/
theorem copies (h₀ : u.Held k p n (t.blocks m ++ rest)) (ht : t.Shows k.ram m)
    (hapart : ∀ i j, n.page i j = none ∨ m.page i j = none)
    (h : Copying p t u m n rest k V S n' k') {xs : List (VirtualAddress × PageEntry)}
    (hxs : ∀ x, x ∈ xs ↔
      ∃ i j pg, m.page i j = some pg ∧ (i, j) ∈ V ∧ x = (pageAt i j, pg.entry)) :
    u.Copies p k.ram k'.ram xs where
  copied a e hmem := by
    obtain ⟨i, j, pg, hpg, hV, heq⟩ := (hxs _).1 hmem
    obtain ⟨rfl, rfl⟩ := Prod.mk.inj heq
    have hcopied := h.copied i j hV
    rw [hpg] at hcopied
    obtain ⟨f, hnew, hbytes⟩ := hcopied
    have hold : n.page i j = none := (hapart i j).resolve_right (by simp [hpg])
    have hspare := h.grows.page_spare i j _ hold hnew
    have hsource : pg.frame < 1048576 := by
      obtain ⟨l, hl, hpage⟩ := TableMap.page_eq_some.1 hpg
      exact (ht.leaf_shows i l hl).page_lt j pg hpage
    have htarget := h.held.page_lt hnew
    have hentry : u.entryIn k'.ram (pageAt i j) = Page.entry ⟨f, pg.writable⟩ := by
      rw [h.held.shows.entryIn_eq, Address.directoryIndex_pageAt, Address.tableIndex_pageAt, hnew,
        entryOf_some]
    refine ⟨frameAt pg.frame, frameAt f, pg.frame?_entry hsource, ?_, ?_, ?_, fun o ho => ?_⟩
    · rw [hentry, Page.frame?_entry _ htarget]
    · rw [hentry, Page.flags_entry, Page.flags_entry]
    · rw [number_frameAt htarget, h₀.holds.represents.free_eq]
      exact hspare
    · rw [val_frameAt htarget, val_frameAt hsource]
      exact hbytes o ho
  kept a hout := by
    have hpage : n'.page a.directoryIndex a.tableIndex = n.page a.directoryIndex a.tableIndex := by
      by_cases hV : (a.directoryIndex, a.tableIndex) ∈ V
      · have hcopied := h.copied _ _ hV
        cases hpg : m.page a.directoryIndex a.tableIndex with
        | none =>
          rw [hpg] at hcopied
          exact hcopied
        | some pg =>
          refine absurd ((hxs _).2 ⟨_, _, pg, hpg, hV, rfl⟩) ?_
          rw [Address.pageAt_position]
          exact hout pg.entry
      · exact h.kept _ _ hV
    rw [h.held.shows.entryIn_eq, h₀.shows.entryIn_eq, hpage]
  byte_eq a f hf o ho := by
    obtain ⟨pg, hpg, rfl⟩ := h₀.page_of_frame? hf
    rw [val_frameAt (h₀.page_lt hpg)]
    exact (h₀.page_sameFrame hpg h.touches le_rfl).byte (Nat.le_add_right _ _)
      (Nat.add_lt_add_left ho _)

theorem copies_all (h₀ : u.Held k p n (t.blocks m ++ rest)) (ht : t.Shows k.ram m)
    (hapart : ∀ i j, n.page i j = none ∨ m.page i j = none)
    (h : Copying p t u m n rest k Set.univ S n' k') :
    u.Copies p k.ram k'.ram (t.mappingsIn k.ram) := by
  refine h.copies h₀ ht hapart fun x => ?_
  rw [ht.mem_mappingsIn]
  simp

/-- In the order of the addresses, the positions that come first are those of the lower addresses. -/
theorem Initial.val_lt (hV : Initial V) {i' : Fin directorySlots} {j' : Fin tableEntries}
    (hin : (i, j) ∈ V) (hout : (i', j') ∉ V) : (pageAt i j).val < (pageAt i' j').val := by
  have hj : j.val < 1024 := j.isLt
  rw [val_pageAt, val_pageAt]
  rcases hV (i, j) hin (i', j') hout with hlt | ⟨heq, hlt⟩
  · have hslot : i.val < i'.val := hlt
    omega
  · have hslot : i.val = i'.val := congrArg Fin.val heq
    have hentry : j.val < j'.val := hlt
    omega

/-- The mappings of the source at positions that come before all others are its first ones. -/
theorem Initial.mem_take (hV : Initial V) (ht : t.Shows k.ram m) :
    ∃ c ≤ (t.mappingsIn k.ram).length,
      ∀ x, x ∈ (t.mappingsIn k.ram).take c ↔
        ∃ i j pg, m.page i j = some pg ∧ (i, j) ∈ V ∧ x = (pageAt i j, pg.entry) := by
  classical
  let visited (x : VirtualAddress × PageEntry) : Bool :=
    decide ((x.1.directoryIndex, x.1.tableIndex) ∈ V)
  have hsorted : (t.mappingsIn k.ram).Pairwise fun x y => visited y = true → visited x = true := by
    refine ht.pairwise_mappingsIn.imp_of_mem fun {x y} hx hy hlt hvisited => ?_
    obtain ⟨i, j, pg, -, rfl⟩ := ht.mem_mappingsIn.1 hx
    obtain ⟨i', j', pg', -, rfl⟩ := ht.mem_mappingsIn.1 hy
    simp only [visited, Address.directoryIndex_pageAt, Address.tableIndex_pageAt,
      decide_eq_true_eq] at hvisited ⊢
    by_contra hout
    exact absurd (hV.val_lt hvisited hout) (Nat.not_lt.2 hlt.le)
  refine ⟨_, List.countP_le_length (p := visited), fun x => ?_⟩
  rw [take_countP_eq_filter hsorted, List.mem_filter, ht.mem_mappingsIn]
  constructor
  · intro ⟨⟨i, j, pg, hpg, heq⟩, hvisited⟩
    subst heq
    exact ⟨i, j, pg, hpg, by simpa [visited] using hvisited, rfl⟩
  · intro ⟨i, j, pg, hpg, hmem, heq⟩
    subst heq
    exact ⟨⟨i, j, pg, hpg, rfl⟩, by simpa [visited] using hmem⟩

/-- A walk that stopped has copied the first mappings of the source: not all of them, or all but not
all of the slots. -/
theorem copies_first (h₀ : u.Held k p n (t.blocks m ++ rest)) (ht : t.Shows k.ram m)
    (hapart : ∀ i j, n.page i j = none ∨ m.page i j = none)
    (h : Copying p t u m n rest k V S n' k') (hV : Initial V) (hlacks : n'.Lacks m) :
    ∃ c, u.Copies p k.ram k'.ram ((t.mappingsIn k.ram).take c) ∧
      (c < (t.mappingsIn k.ram).length ∨ c = (t.mappingsIn k.ram).length ∧
        ∃ i, (t.slotIn k.ram i).isSome = true ∧ u.slotIn k'.ram i = none) := by
  obtain ⟨c, hle, htake⟩ := hV.mem_take ht
  refine ⟨c, h.copies h₀ ht hapart htake, (Nat.lt_or_eq_of_le hle).imp_right fun hall => ⟨hall, ?_⟩⟩
  rcases hlacks with ⟨i, hm, hn⟩ | ⟨i, j, hm, hn⟩
  · refine ⟨i, ?_, ?_⟩
    · rw [ht.slotIn_eq, Option.isSome_map, hm]
    · rw [h.held.shows.slotIn_eq, hn]
      rfl
  · -- a page that is missing was not visited, although all were
    obtain ⟨pg, hpg⟩ := Option.isSome_iff_exists.1 hm
    have hmem := ht.mem_mappingsIn.2 ⟨i, j, pg, hpg, rfl⟩
    rw [← List.take_length (l := t.mappingsIn k.ram), ← hall, htake] at hmem
    obtain ⟨i', j', pg', -, hvisited, heq⟩ := hmem
    have haddress := congrArg Prod.fst heq
    have hi := congrArg Address.directoryIndex haddress
    have hj := congrArg Address.tableIndex haddress
    simp only [Address.directoryIndex_pageAt, Address.tableIndex_pageAt] at hi hj
    have hcopied := h.copied i j (hi ▸ hj ▸ hvisited)
    rw [hpg, hn] at hcopied
    obtain ⟨f, hnew, -⟩ := hcopied
    cases hnew

end Copying

/-! ## How copying ends -/

/-- The mappings `xs` were copied into `u`, which lies next to the blocks `rest`: its second-level
tables stay where they were, and nothing of `rest` is written to. -/
structure Merged (p : FramePool) (u : PageTable) (rest : List Block) (k : Kernel)
    (xs : List (VirtualAddress × PageEntry)) (k' : Kernel) : Prop where
  copies : u.Copies p k.ram k'.ram xs
  slot_kept : ∀ i leaf, u.slotIn k.ram i = some leaf → u.slotIn k'.ram i = some leaf
  held : u.Held k' p (u.mapIn k'.ram) rest
  sameBlocks : k.ram.SameBlocks k'.ram rest

theorem Merged.perm {xs : List (VirtualAddress × PageEntry)} (h : u.Merged p rest k xs k')
    {rest' : List Block} (hperm : rest.Perm rest') : u.Merged p rest' k xs k' where
  copies := h.copies
  slot_kept := h.slot_kept
  held := h.held.perm hperm
  sameBlocks f hf := h.sameBlocks f (by rwa [framesOf_perm hperm])

theorem Copying.merged (h₀ : u.Held k p n (t.blocks m ++ rest))
    (h : Copying p t u m n rest k V S n' k') {xs : List (VirtualAddress × PageEntry)}
    (hcopies : u.Copies p k.ram k'.ram xs) : u.Merged p (t.blocks m ++ rest) k xs k' where
  copies := hcopies
  slot_kept i leaf hleaf := by
    rw [h₀.shows.slotIn_eq, Option.map_eq_some_iff] at hleaf
    obtain ⟨l, hl, rfl⟩ := hleaf
    obtain ⟨l', hl', hframe⟩ := h.grows.table_eq i l hl
    rw [h.held.shows.slotIn_eq, hl', Option.map_some, Leaf.table_congr hframe]
  held := by
    rw [h.held.shows.mapIn_eq]
    exact h.held
  sameBlocks _ hf := h.sameFrame h₀ hf

/-- Copying into a table that maps no page of the source is granted just when the frames that it takes
are free. Otherwise memory runs out on the way. -/
theorem copyTo_merges (h₀ : u.Held k p n (t.blocks m ++ rest)) (ht : t.Shows k.ram m)
    (hapart : ∀ i j, n.page i j = none ∨ m.page i j = none) :
    ((t.copyTo u).run k).Meets
      (fun _ k' => t.copyCost u k.ram ≤ p.freeFrames k.ram ∧
        u.Merged p (t.blocks m ++ rest) k (t.mappingsIn k.ram) k' ∧
          ∀ i, (u.slotIn k'.ram i).isSome =
            ((u.slotIn k.ram i).isSome || (t.slotIn k.ram i).isSome))
      (fun cause k' => cause = .outOfMemory ∧ p.freeFrames k.ram < t.copyCost u k.ram ∧
        ∃ c, u.Merged p (t.blocks m ++ rest) k ((t.mappingsIn k.ram).take c) k' ∧
          (c < (t.mappingsIn k.ram).length ∨ c = (t.mappingsIn k.ram).length ∧
            ∃ i, (t.slotIn k.ram i).isSome = true ∧ u.slotIn k'.ram i = none))
      never := by
  refine (run_copyTo h₀ ht).mono ?_ ?_ ?_
  · intro _ k' ⟨n', h⟩
    refine ⟨h.copyCost_le h₀ ht hapart, h.merged h₀ (h.copies_all h₀ ht hapart), fun i => ?_⟩
    rw [h.held.shows.slotIn_eq, h₀.shows.slotIn_eq, ht.slotIn_eq, Option.isSome_map,
      Option.isSome_map, Option.isSome_map, Bool.eq_iff_iff, h.slots i, Bool.or_eq_true]
    simp
  · intro cause k' ⟨hcause, V, S, n', h, hV, hnone, hlacks⟩
    obtain ⟨c, hcopies, hfirst⟩ := h.copies_first h₀ ht hapart hV hlacks
    exact ⟨hcause, h.lt_copyCost h₀ ht hapart hnone hlacks, c, h.merged h₀ hcopies, hfirst⟩
  · intro cause ⟨_, i, j, hm, hn⟩
    rcases hapart i j with hnone | hnone
    · simp [hnone] at hn
    · simp [hnone] at hm

end PageTable

end SoftPaging
