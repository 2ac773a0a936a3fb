import Mathlib
import SoftPaging.Proofs.Paging.Refinement
import SoftPaging.Proofs.Session.Duplication

/-!
# Page tables are finite maps

Whatever a client did, each of its page tables represents a finite map, and what it does next to the
table it does to the map (`tables_are_maps`). A new table represents the empty map, so the map is what
the client's operations made of it, those that were refused for want of memory included.
-/

namespace SoftPaging

open Outcome

namespace Session

variable {p : FramePool} {s s₀ : Session} {trace : List (Request × Bool)} {i target : Nat}
  {o o' : Object} {t u : PageTable}

/-- The page tables of the session are maps, and change as maps do. -/
structure HasMaps (p : FramePool) (s : Session) : Prop where
  create : (PageTable.create.run s.kernel).Meets (fun t k => t.Represents p k .empty)
    (fun cause _ => cause = .outOfMemory) never
  represents : ∀ i o t, s.object i = some o → o.table? = some t →
    ∃ M, t.Represents p s.kernel M ∧ t.ActsOn p s.kernel M
  /-- One table may be copied into another when they have no page in common. -/
  unites : ∀ i target o o' t u, i ≠ target → s.object i = some o → o.table? = some t →
    s.object target = some o' → o'.table? = some u →
      ∀ M N, u.Represents p s.kernel M → t.Represents p s.kernel N →
        (∀ a, N.lookup a = none ∨ M.lookup a = none) → u.UnitesWith t p s.kernel M N

namespace Sound

theorem create_empty (h : s.Sound p) :
    (PageTable.create.run s.kernel).Meets (fun t k => t.Represents p k .empty)
      (fun cause _ => cause = .outOfMemory) never := by
  refine (PageTable.create_meets h.holds_owned).mono ?_ ?_ fun _ hH => hH
  · rintro t k ⟨hheld, -⟩
    rw [← TableMap.pageMap_vacant]
    exact hheld.represents
  · exact fun _ _ hR => hR.1

theorem unites (h : s.Sound p) (hne : i ≠ target) (ho : s.object i = some o)
    (ht : o.table? = some t) (ho' : s.object target = some o') (hu : o'.table? = some u)
    {M N : PageMap} (hM : u.Represents p s.kernel M) (hN : t.Represents p s.kernel N)
    (hapart : ∀ a, N.lookup a = none ∨ M.lookup a = none) : u.UnitesWith t p s.kernel M N := by
  have hheld := h.held_beside hne.symm ho ht ho' hu
  have hshows : t.Shows s.kernel.ram (t.mapIn s.kernel.ram) := (h.take ho).2.shows ht
  obtain rfl := hM.unique hheld.represents hheld.holds.sound
  obtain rfl := hN.unique (h.held ho ht).represents hheld.holds.sound
  refine PageTable.unitesWith hheld hshows fun i' j => ?_
  have hpages := hapart (pageAt i' j)
  unfold PageMap.lookup at hpages
  rwa [Address.directoryIndex_pageAt, Address.tableIndex_pageAt] at hpages

theorem hasMaps (h : s.Sound p) : s.HasMaps p where
  create := h.create_empty
  represents _ _ _ ho ht := ⟨_, (h.held ho ht).represents, (h.held ho ht).actsOn⟩
  unites _ _ _ _ _ _ hne ho ht ho' hu _ _ := h.unites hne ho ht ho' hu

end Sound

/-- Every history of a machine leaves page tables that are finite maps. -/
theorem tables_are_maps (hboot : s₀.Booted p)
    (hruns : Runs (fun s r => r.Permitted p s) s₀ trace s) : s.HasMaps p :=
  (hruns.sound (fun _ _ hr => hr) hboot.sound).hasMaps

/-- On eight pages of RAM, the table of a space with one page on its stack has one key. -/
theorem eight_pages_map : ∃ (s₀ s : Session) (sp : AddressSpace) (M : PageMap),
    s₀.Booted (pages 8) ∧ Runs (fun s r => r.Permitted (pages 8) s) s₀
      [(.newSpace, true), (.fault (some 0) 0 stackPage, true)] s ∧
      s.object 0 = some (.space sp) ∧ sp.table.Represents (pages 8) s.kernel M ∧
        M.slots.card + M.keys.card = 2 ∧ s.HasMaps (pages 8) := by
  obtain ⟨s₀, s, sp, hboot, hruns, ho, hcost, -⟩ := exists_resident (n := 8) (by decide) (by decide)
  have hmaps := tables_are_maps hboot hruns
  have hheld := (hruns.sound (fun _ _ hr => hr) hboot.sound).held ho (t := sp.table) rfl
  rw [AddressSpace.copyCost_eq hheld.shows, TableMap.frameCount_blocks] at hcost
  refine ⟨s₀, s, sp, _, hboot, hruns, ho, hheld.represents, ?_, hmaps⟩
  rw [TableMap.card_slots, TableMap.card_keys_pageMap]
  omega

end Session

end SoftPaging
