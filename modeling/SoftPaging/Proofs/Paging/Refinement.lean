import Mathlib
import SoftPaging.Proofs.Paging.Becomes
import SoftPaging.Proofs.Paging.PageMap

/-!
# Operations on page tables as operations on maps

What an operation does to a page table that represents a map, it does to the map: opening a slot adds
it, mapping a page inserts it at its position, closing a slot takes its pages along
(`PageTable.ActsOn`). When memory runs out the map stays as it is. Copying one page table into another
unites their maps; there the memory may run out on the way, and the target has a part of the union
(`PageTable.UnitesWith`).
-/

namespace SoftPaging

open Outcome

namespace PageMap

variable {M : PageMap} {i : Fin directorySlots}

theorem openSlot_eq_self (h : i ∈ M.slots) : M.openSlot i = M :=
  PageMap.ext (Finset.insert_eq_of_mem h) rfl

theorem closeSlot_eq_self (h : i ∉ M.slots) : M.closeSlot i = M := by
  refine PageMap.ext (Finset.erase_eq_of_notMem h) (funext fun i' => funext fun j => ?_)
  show (if i' = i then none else M.page i' j) = M.page i' j
  by_cases hi : i' = i
  · rw [if_pos hi, hi, page_eq_none h]
  · rw [if_neg hi]

/-- The map with what it got of the map `N`: at the positions `V` it has the pages of `N`, each with
its permission and its bytes in another frame, and where `N` has none, its own. -/
structure Receives (M : PageMap) (k k' : Kernel) (N : PageMap)
    (V : Set (Fin directorySlots × Fin tableEntries)) (M' : PageMap) : Prop where
  subset_slots : M.slots ⊆ M'.slots
  slots_subset : M'.slots ⊆ M.slots ∪ N.slots
  copied : ∀ i j, (i, j) ∈ V → PageTable.CopiedPage k k' (M.page i j) (N.page i j) (M'.page i j)
  kept : ∀ i j, (i, j) ∉ V → M'.page i j = M.page i j

end PageMap

/-- The frame was free, and is handed out full of zeros. -/
structure FramePool.Clears (p : FramePool) (k k' : Kernel) (f : Nat) : Prop where
  free : p.isFree k.ram f = true
  taken : p.isFree k'.ram f = false
  zero : ∀ o < pageSize, k'.ram.byte (f * pageSize + o) = 0

namespace PageTable

/-- What the operations on the page table do, they do to the map that it represents. -/
structure ActsOn (t : PageTable) (p : FramePool) (k : Kernel) (M : PageMap) : Prop where
  openSlot : ∀ i : Fin directorySlots, ((t.openSlot i.val).run k).Meets
    (fun made k' => made = decide (i ∉ M.slots) ∧ t.Represents p k' (M.openSlot i) ∧
      (i ∈ M.slots → k' = k))
    (fun cause k' => cause = .outOfMemory ∧ i ∉ M.slots ∧ t.Represents p k' M) never
  /-- A page that is there is left as it is, whatever is asked for, and nothing happens at all. -/
  mapPage_of_mem : ∀ i j pg, M.page i j = some pg → ∀ writable : Bool,
    (t.mapPage i.val j.val writable).run k = .done ⟨PageMap.wordOf pg⟩ k
  mapPage : ∀ i j, i ∈ M.slots → M.page i j = none → ∀ writable : Bool,
    ((t.mapPage i.val j.val writable).run k).Meets
      (fun e k' => ∃ f, p.Clears k k' f ∧ e = ⟨PageMap.wordOf ⟨f, writable⟩⟩ ∧
        t.Represents p k' (M.insert i j ⟨f, writable⟩))
      (fun cause k' => cause = .outOfMemory ∧ t.Represents p k' M) never
  /-- The answer is whether there was something to take. -/
  writeProtect : ∀ a, ∃ k', (t.writeProtect a).run k =
      .done ((M.lookup a).any Page.writable) k' ∧ t.Represents p k' (M.protect a)
  closeSlot : ∀ i : Fin directorySlots, ∃ k', (t.closeSlot i.val).run k = .done () k' ∧
    t.Represents p k' (M.closeSlot i) ∧
      ∀ j pg, M.page i j = some pg → p.isFree k'.ram pg.frame = true

/-- Copying `t`, which represents `N`, into `u`, which represents `M` and has no page in common with
it, unites the maps. The source represents what it did. -/
def UnitesWith (u t : PageTable) (p : FramePool) (k : Kernel) (M N : PageMap) : Prop :=
  ((t.copyTo u).run k).Meets
    (fun _ k' => ∃ M', M.Receives k k' N Set.univ M' ∧ M'.slots = M.slots ∪ N.slots ∧
      u.Represents p k' M' ∧ t.Represents p k' N)
    (fun cause k' => cause = .outOfMemory ∧ ∃ V M', M.Receives k k' N V M' ∧
      u.Represents p k' M' ∧ t.Represents p k' N) never

variable {t u : PageTable} {k k' : Kernel} {p : FramePool} {m n n' : TableMap} {rest : List Block}
  {i : Fin directorySlots} {j : Fin tableEntries} {pg : Page} {f : Nat}

namespace Held

/-! ## One operation -/

theorem openSlot_refines (h : t.Held k p m rest) (i : Fin directorySlots) :
    ((t.openSlot i.val).run k).Meets
      (fun made k' => made = decide (i ∉ m.pageMap.slots) ∧
        t.Represents p k' (m.pageMap.openSlot i) ∧ (i ∈ m.pageMap.slots → k' = k))
      (fun cause k' => cause = .outOfMemory ∧ i ∉ m.pageMap.slots ∧ t.Represents p k' m.pageMap)
      never := by
  cases hl : m i with
  | some l =>
    have hmem := TableMap.mem_slots_of_open hl
    rw [h.run_openSlot_of_open hl]
    refine .done ⟨?_, ?_, fun _ => rfl⟩
    · exact (decide_eq_false (not_not.2 hmem)).symm
    · rw [PageMap.openSlot_eq_self hmem]
      exact h.represents
  | none =>
    have hmem := TableMap.not_mem_slots.2 hl
    rcases p.spare_cases (t.blocks m ++ rest) with hnone | ⟨f, hf⟩
    · rw [h.run_openSlot_exhausted hl hnone]
      exact .refused ⟨rfl, hmem, (h.push _).represents⟩
    · rw [h.run_openSlot hl hf]
      refine .done ⟨?_, ?_, fun hin => absurd hin hmem⟩
      · exact (decide_eq_true hmem).symm
      · rw [← TableMap.pageMap_setSlot_vacant hl f]
        exact (h.openSlot hl hf).represents

theorem mapPage_of_page (h : t.Held k p m rest) (hpg : m.page i j = some pg) (writable : Bool) :
    (t.mapPage i.val j.val writable).run k = .done ⟨PageMap.wordOf pg⟩ k := by
  obtain ⟨l, hl, hpage⟩ := TableMap.page_eq_some.1 hpg
  rw [h.run_mapPage_of_mapped hl hpage, PageMap.wordOf_eq (h.page_lt hpg)]

/-- The frame of a page is not free. -/
theorem page_not_free (h : t.Held k p m rest) (hpg : m.page i j = some pg) :
    p.isFree k.ram pg.frame = false := by
  have hmem := h.page_mem hpg
  rw [Bool.eq_false_iff, ne_eq, h.holds.represents.isFree_iff (h.holds.frame_bounds hmem).2]
  exact fun hfree => hfree.2 hmem

theorem spare_isFree (h : t.Held k p m rest) (hf : f ∈ p.spare (t.blocks m ++ rest)) :
    p.isFree k.ram f = true :=
  (h.holds.represents.isFree_iff hf.2.1).2 ⟨hf.1, hf.2.2⟩

theorem mapPage_refines (h : t.Held k p m rest) (hslot : i ∈ m.pageMap.slots)
    (hpg : m.page i j = none) (writable : Bool) :
    ((t.mapPage i.val j.val writable).run k).Meets
      (fun e k' => ∃ f, p.Clears k k' f ∧ e = ⟨PageMap.wordOf ⟨f, writable⟩⟩ ∧
        t.Represents p k' (m.pageMap.insert i j ⟨f, writable⟩))
      (fun cause k' => cause = .outOfMemory ∧ t.Represents p k' m.pageMap) never := by
  obtain ⟨l, hl⟩ := TableMap.exists_of_mem_slots hslot
  rw [TableMap.page_of_slot hl] at hpg
  rcases p.spare_cases (t.blocks m ++ rest) with hnone | ⟨f, hf⟩
  · rw [h.run_mapPage_exhausted hl hpg hnone]
    exact .refused ⟨rfl, (h.push _).represents⟩
  · have hheld := h.mapPage hl hpg hf writable
    have hpage : (m.setSlot i (some (l.setPage j (some ⟨f, writable⟩)))).page i j =
        some ⟨f, writable⟩ := by rw [m.page_setPage hl, if_pos ⟨rfl, rfl⟩]
    have htaken := hheld.page_not_free hpage
    rw [h.run_mapPage hl hpg hf]
    refine .done ⟨f, ⟨h.spare_isFree hf.1, htaken, fun o ho => ?_⟩, ?_, ?_⟩
    · exact h.byte_mapPage hl hf j writable ho
    · rw [PageMap.wordOf_eq (hheld.page_lt hpage)]
    · rw [← TableMap.pageMap_setPage hl]
      exact hheld.represents

theorem writeProtect_refines (h : t.Held k p m rest) (a : VirtualAddress) :
    ∃ k', (t.writeProtect a).run k = .done ((m.pageMap.lookup a).any Page.writable) k' ∧
      t.Represents p k' (m.pageMap.protect a) := by
  obtain ⟨k', hrun, hheld, -⟩ := h.writeProtect a
  refine ⟨k', hrun, ?_⟩
  rw [← m.pageMap_protect a]
  exact hheld.represents

theorem closeSlot_refines (h : t.Held k p m rest) (i : Fin directorySlots) :
    ∃ k', (t.closeSlot i.val).run k = .done () k' ∧ t.Represents p k' (m.pageMap.closeSlot i) ∧
      ∀ j pg, m.page i j = some pg → p.isFree k'.ram pg.frame = true := by
  cases hl : m i with
  | none =>
    refine ⟨k, h.run_closeSlot_of_closed hl, ?_, fun j pg hpg => ?_⟩
    · rw [PageMap.closeSlot_eq_self (TableMap.not_mem_slots.2 hl)]
      exact h.represents
    · rw [TableMap.page_of_closed hl] at hpg
      cases hpg
  | some l =>
    obtain ⟨k', hrun, hheld, -⟩ := h.closeSlot hl
    refine ⟨k', hrun, ?_, fun j pg hpg => ?_⟩
    · rw [← m.pageMap_setSlot_none i]
      exact hheld.represents
    · -- the frame went with its slot, so it is none of those that stay
      rw [TableMap.page_of_slot hl] at hpg
      have hgone : pg.frame ∈ framesOf l.blocks :=
        Leaf.mem_framesOf_blocks.2 (.inr ⟨j, pg, hpg, rfl⟩)
      have hbounds := (h.focus hl).frame_bounds (mem_framesOf_append.2 (.inl hgone))
      refine hheld.spare_isFree ⟨hbounds.1, hbounds.2, fun hstays => ?_⟩
      exact (h.focus hl).represents.disjoint_of_append hgone hstays

theorem actsOn (h : t.Held k p m rest) : t.ActsOn p k m.pageMap where
  openSlot i := h.openSlot_refines i
  mapPage_of_mem _ _ _ hpg writable := h.mapPage_of_page hpg writable
  mapPage _ _ hslot hpg writable := h.mapPage_refines hslot hpg writable
  writeProtect a := h.writeProtect_refines a
  closeSlot i := h.closeSlot_refines i

end Held

/-! ## Copying -/

theorem Copying.receives {V : Set (Fin directorySlots × Fin tableEntries)}
    {S : Set (Fin directorySlots)} (h : Copying p t u m n rest k V S n' k') :
    n.pageMap.Receives k k' m.pageMap V n'.pageMap where
  subset_slots i hi := by
    rw [TableMap.mem_slots] at hi ⊢
    exact (h.slots i).2 (.inl hi)
  slots_subset i hi := by
    rw [Finset.mem_union]
    rw [TableMap.mem_slots] at hi ⊢
    rw [TableMap.mem_slots]
    exact ((h.slots i).1 hi).imp_right And.right
  copied := h.copied
  kept := h.kept

theorem Copying.slots_eq {V : Set (Fin directorySlots × Fin tableEntries)}
    (h : Copying p t u m n rest k V Set.univ n' k') :
    n'.pageMap.slots = n.pageMap.slots ∪ m.pageMap.slots := by
  ext i
  rw [Finset.mem_union, TableMap.mem_slots, TableMap.mem_slots, TableMap.mem_slots, h.slots i,
    and_iff_right (Set.mem_univ i)]

/-- Copying into a page table that has no page where the source has one. -/
theorem unitesWith (h₀ : u.Held k p n (t.blocks m ++ rest)) (ht : t.Shows k.ram m)
    (hapart : ∀ i j, m.page i j = none ∨ n.page i j = none) :
    u.UnitesWith t p k n.pageMap m.pageMap := by
  refine (run_copyTo h₀ ht).mono ?_ ?_ ?_
  · rintro _ k' ⟨n', h⟩
    exact ⟨n'.pageMap, h.receives, h.slots_eq, h.held.represents,
      (h.source_shows h₀ ht).represents⟩
  · rintro cause k' ⟨rfl, V, S, n', h, -⟩
    exact ⟨rfl, V, n'.pageMap, h.receives, h.held.represents, (h.source_shows h₀ ht).represents⟩
  · rintro cause ⟨-, i, j, hm, hn⟩
    rcases hapart i j with hnone | hnone
    · rw [hnone] at hm
      cases hm
    · rw [hnone] at hn
      cases hn

end PageTable

end SoftPaging
