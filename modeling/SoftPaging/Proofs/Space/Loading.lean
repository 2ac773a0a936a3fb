import Mathlib
import SoftPaging.Proofs.Paging.Counting
import SoftPaging.Proofs.Space.Demand
import SoftPaging.Proofs.Space.Regions

/-!
# Loading an address space

While a program is loaded its regions are writable. Ending that puts the declared permissions back
and takes write permission from every page whose newest region does not allow writes
(`AddressSpace.seals`). The pages stay where they are and keep their bytes.

The pages that lose the permission are found first and protected one after another. What matters of
them is which positions they are at, so the loop comes to protecting a list of addresses in a map
(`TableMap.page_protectAll`).
-/

namespace SoftPaging

open Outcome

variable {k k' : Kernel} {p : FramePool} {rest : List Block} {m : TableMap} {t : PageTable}
  {i : Fin directorySlots} {j : Fin tableEntries} {τ : Type} [TlbDevice τ]

/-! ## Protecting pages -/

namespace TableMap

/-- The map without write permission for the pages at any of the addresses. -/
def protectAll (m : TableMap) (as : List VirtualAddress) : TableMap := as.foldl protect m

theorem page_protectAll (m : TableMap) (as : List VirtualAddress) (i : Fin directorySlots)
    (j : Fin tableEntries) : (m.protectAll as).page i j =
      if ∃ a ∈ as, a.directoryIndex = i ∧ a.tableIndex = j then (m.page i j).map Page.readOnly
      else m.page i j := by
  induction as generalizing m with
  | nil => rfl
  | cons a as ih =>
    have hstep : (m.protectAll (a :: as)).page i j = ((m.protect a).protectAll as).page i j := rfl
    rw [hstep, ih, page_protect]
    by_cases hhead : a.directoryIndex = i ∧ a.tableIndex = j
    · -- protecting a page twice is protecting it once
      have htwice : ((m.page i j).map Page.readOnly).map Page.readOnly =
          (m.page i j).map Page.readOnly := by
        rw [Option.map_map]
        rfl
      rw [if_pos hhead, htwice, ite_self, if_pos ⟨a, List.mem_cons_self, hhead⟩]
    · have htail : (∃ b ∈ a :: as, b.directoryIndex = i ∧ b.tableIndex = j) ↔
          ∃ b ∈ as, b.directoryIndex = i ∧ b.tableIndex = j := by
        rw [List.exists_mem_cons_iff]
        exact or_iff_right hhead
      simp only [if_neg hhead, htail]

theorem frame_protectAll (m : TableMap) (as : List VirtualAddress) (i : Fin directorySlots) :
    (m.protectAll as i).map Leaf.frame = (m i).map Leaf.frame := by
  induction as generalizing m with
  | nil => rfl
  | cons a as ih =>
    have hstep : m.protectAll (a :: as) = (m.protect a).protectAll as := rfl
    rw [hstep, ih, frame_protect]

end TableMap

/-- The blocks do not depend on the permissions of the pages. -/
theorem PageTable.blocks_protectAll (t : PageTable) (m : TableMap) (as : List VirtualAddress) :
    (t.blocks (m.protectAll as)).Perm (t.blocks m) := by
  induction as generalizing m with
  | nil => exact .rfl
  | cons a as ih => exact (ih (m.protect a)).trans (t.blocks_protect m a)

/-! ## Ending a load -/

namespace AddressSpace

variable {s : AddressSpace}

/-- The newest region that covers the address does not allow writes. -/
def seals (s : AddressSpace) (a : VirtualAddress) : Bool :=
  match s.newestAt a with
  | some r => !r.permissions.writable
  | none => false

/-- Whether a page is to be protected is decided without a halt. -/
theorem Sound.isOverwritable_eq (h : s.Sound) (page : VirtualAddress) (e : PageEntry) :
    s.isOverwritable page e = .ok (e.isDirty && s.seals page) := by
  unfold isOverwritable seals
  cases e.isDirty with
  | false => rfl
  | true =>
    rw [h.regionAt_eq]
    cases s.newestAt page <;> rfl

/-- The space with the declared permissions of its regions in force. -/
def restored (s : AddressSpace) : AddressSpace := { s with regions := s.regions.map Region.restore }

theorem Sound.restored (h : s.Sound) : s.restored.Sound := h.mapRegions fun _ => Region.Sound.restore

/-- The pages that lose write permission when a load ends. -/
def sealedPages (s : AddressSpace) (ram : Ram) : List (VirtualAddress × PageEntry) :=
  (s.table.mappingsIn ram).filter fun x => x.2.isDirty && s.seals x.1

/-- A page is among those that lose write permission if it has it and is not to have it. -/
theorem exists_mem_sealedPages {ram : Ram} (h : s.table.Shows ram m) :
    (∃ a ∈ (s.sealedPages ram).map Prod.fst, a.directoryIndex = i ∧ a.tableIndex = j) ↔
      ∃ pg, m.page i j = some pg ∧ pg.writable = true ∧ s.seals (pageAt i j) = true := by
  unfold sealedPages
  rw [h.mappingsIn_eq]
  constructor
  · rintro ⟨a, ha, hi, hj⟩
    obtain ⟨⟨a', e⟩, hx, rfl⟩ := List.mem_map.1 ha
    obtain ⟨hmem, hcond⟩ := List.mem_filter.1 hx
    obtain ⟨i', -, hmem⟩ := List.mem_flatMap.1 hmem
    obtain ⟨j', -, hmem⟩ := List.mem_filterMap.1 hmem
    obtain ⟨pg, hpg, heq⟩ := Option.map_eq_some_iff.1 hmem
    obtain ⟨rfl, rfl⟩ := Prod.mk.inj heq
    rw [Address.directoryIndex_pageAt] at hi
    rw [Address.tableIndex_pageAt] at hj
    subst hi hj
    rw [Page.isDirty_entry, Bool.and_eq_true] at hcond
    exact ⟨pg, hpg, hcond⟩
  · rintro ⟨pg, hpg, hwritable, hseals⟩
    refine ⟨pageAt i j, List.mem_map.2 ⟨(pageAt i j, pg.entry), List.mem_filter.2 ⟨?_, ?_⟩, rfl⟩,
      Address.directoryIndex_pageAt i j, Address.tableIndex_pageAt i j⟩
    · refine List.mem_flatMap.2 ⟨i, List.mem_finRange i, List.mem_filterMap.2
        ⟨j, List.mem_finRange j, ?_⟩⟩
      rw [hpg]
      rfl
    · rw [Page.isDirty_entry, hwritable, hseals]
      rfl

/-- What a map becomes when the load of a space ends. -/
theorem page_sealed {ram : Ram} (h : s.table.Shows ram m) (i : Fin directorySlots)
    (j : Fin tableEntries) :
    (m.protectAll ((s.sealedPages ram).map Prod.fst)).page i j =
      (m.page i j).map fun pg => if s.seals (pageAt i j) then pg.readOnly else pg := by
  rw [TableMap.page_protectAll]
  cases hpg : m.page i j with
  | none =>
    rw [if_neg]
    · rfl
    · rw [exists_mem_sealedPages h, hpg]
      rintro ⟨pg, hnone, -⟩
      cases hnone
  | some pg =>
    rw [Option.map_some, Option.map_some]
    cases hseals : s.seals (pageAt i j) with
    | false =>
      rw [if_neg]
      · rfl
      · rw [exists_mem_sealedPages h, hseals]
        rintro ⟨_, -, -, hfalse⟩
        cases hfalse
    | true =>
      cases hwritable : pg.writable with
      | true => rw [if_pos ((exists_mem_sealedPages h).2 ⟨pg, hpg, hwritable, hseals⟩), if_pos rfl]
      | false =>
        -- such a page is not dirty, and protecting it would change nothing
        have hread : pg.readOnly = pg := by rw [Page.readOnly, ← hwritable]
        rw [hread, ite_self, ite_self]

end AddressSpace

/-- Taking write permission from one page after another. -/
theorem PageTable.Held.run_protectAll (h : t.Held k p m rest) (xs : List (VirtualAddress × PageEntry)) :
    ∃ k', (xs.forM fun x => (discard (t.writeProtect x.1) : Op PUnit)).run k = .done ⟨⟩ k' ∧
      t.Held k' p (m.protectAll (xs.map Prod.fst)) rest ∧
        t.Becomes p rest k (m.image k.ram) k' ∧ Kernel.Touches p (t.skeleton m) k k' := by
  induction xs generalizing k m with
  | nil => exact ⟨k, rfl, h, h.unchanged, Kernel.Touches.refl p _ k⟩
  | cons x xs ih =>
    obtain ⟨k₁, hrun, hheld, hbecomes, htouches⟩ := h.writeProtect_held x.1
    obtain ⟨k', hloop, hheld', hbecomes', htouches'⟩ := ih hheld
    rw [t.skeleton_congr (m.frame_protect x.1)] at htouches'
    refine ⟨k', ?_, hheld', hbecomes.trans fun m' hm' himage => ?_, htouches.trans htouches'⟩
    · change ((discard (t.writeProtect x.1) : Op PUnit) >>= fun _ => xs.forM _).run k = _
      rw [Transition.run_bind, Transition.run_discard, hrun]
      exact hloop
    · obtain rfl := hm'.shows.unique hheld.shows
      rw [← himage]
      exact hbecomes'

namespace AddressSpace

variable {s : AddressSpace}

/-- The pages that a load must not leave writable are picked without touching anything. -/
theorem Sound.run_filterM (hs : s.Sound) (ram : Ram) (k : Kernel) :
    ((s.table.mappingsIn ram).filterM (fun x =>
      liftM ({ s with regions := s.regions.map Region.restore }.isOverwritable x.1 x.2)) :
        Op (List (VirtualAddress × PageEntry))).run k = .done (s.restored.sealedPages ram) k := by
  refine Transition.run_filterM_of_idle fun x _ => ?_
  have hseals := hs.restored.isOverwritable_eq x.1 x.2
  unfold AddressSpace.restored at hseals
  rw [hseals]
  rfl

/-- Ending the loading of a space puts its permissions back, seals the pages that are not to be
written to, and invalidates the TLB. -/
theorem endLoad_done (hs : s.Sound) (h : s.table.Held k p m rest) (mmu : Mmu τ) :
    ∃ k', (s.endLoad mmu).run k = .done (s.restored, mmu.flush) k' ∧
      s.table.Held k' p (m.protectAll ((s.restored.sealedPages k.ram).map Prod.fst)) rest ∧
        s.table.Becomes p rest k (m.image k.ram) k' ∧
          Kernel.Touches p (s.table.skeleton m) k k' := by
  have hfilter := hs.run_filterM k.ram k
  obtain ⟨k', hloop, hheld, hbecomes, htouches⟩ :=
    h.run_protectAll (s.restored.sealedPages k.ram)
  unfold endLoad
  rw [Transition.run_bind, h.run_mappings, andThen_done, Transition.run_bind, hfilter, andThen_done,
    Transition.run_bind, hloop, andThen_done]
  split
  · exact ⟨_, rfl, hheld.push _, hbecomes.push _,
      htouches.trans (Kernel.Touches.push p _ k' _)⟩
  · exact ⟨_, rfl, hheld, hbecomes, htouches⟩

end AddressSpace

end SoftPaging
