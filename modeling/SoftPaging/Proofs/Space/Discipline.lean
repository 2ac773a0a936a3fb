import Mathlib
import SoftPaging.Proofs.Space.Loading

/-!
# Write permission of pages

Whether a page is writable is fixed when it is first touched, from a permission that a load widens
for a time. Two things hold throughout, with what the regions were declared to allow as the measure
(`Disciplined`): a page that is to be writable is, and a region that is to be writable is. As long as
no load is in progress, neither has more than that.

Whether there should be a page at an address, and with which permission, does not depend on what is
in force, so it is read off the space with its declared permissions restored.
-/

namespace SoftPaging

namespace Region

theorem restore_eq_self {r : Region} (h : r.permissions = r.declared) : r.restore = r := by
  obtain ⟨base, size, permissions, declared⟩ := r
  obtain rfl : permissions = declared := h
  rfl

end Region

namespace AddressSpace

variable {s s' : AddressSpace} {a : VirtualAddress} {r : Region} {writable : Bool}

/-! ## The newest region -/

theorem newestAt_restored (s : AddressSpace) (a : VirtualAddress) :
    s.restored.newestAt a = (s.newestAt a).map Region.restore := by
  unfold restored newestAt
  rw [← List.map_reverse, List.find?_map]
  rfl

/-- A region that does not cover an address does not matter there. -/
theorem newestAt_of_append (hregions : s'.regions = s.regions ++ [r]) (h : r.covers a = false) :
    s'.newestAt a = s.newestAt a := by
  unfold newestAt
  rw [hregions, List.reverse_append, List.reverse_singleton, List.singleton_append,
    List.find?_cons_of_neg]
  rw [h]
  exact Bool.false_ne_true

/-- An address that the last region covers is that region's. -/
theorem newestAt_of_last (hlast : s.regions.getLast? = some r) (h : r.covers a = true) :
    s.newestAt a = some r := by
  obtain ⟨rs, hregions⟩ := List.getLast?_eq_some_iff.1 hlast
  unfold newestAt
  rw [hregions, List.reverse_append, List.reverse_singleton, List.singleton_append,
    List.find?_cons_of_pos]
  exact h

theorem grants_of_last (hlast : s.regions.getLast? = some r) (h : r.covers a = true) :
    s.grants a = some r.permissions.writable := by
  unfold grants
  rw [newestAt_of_last hlast h]

theorem mem_regions_of_newestAt (h : s.newestAt a = some r) : r ∈ s.regions :=
  List.mem_reverse.1 (List.mem_of_find?_eq_some h)

theorem covers_of_newestAt (h : s.newestAt a = some r) : r.covers a = true := by
  unfold newestAt at h
  simpa using List.find?_some h

theorem grants_congr (h : s'.newestAt a = s.newestAt a) : s'.grants a = s.grants a := by
  unfold grants
  rw [h]

/-- What is granted at an address is sealed there when it is not write permission. -/
theorem seals_of_grants (h : s.grants a = some writable) : s.seals a = !writable := by
  unfold grants at h
  unfold seals
  cases hnewest : s.newestAt a with
  | some r =>
    rw [hnewest] at h
    rw [← Option.some.inj h]
  | none =>
    rw [hnewest] at h
    obtain ⟨-, htrue⟩ := Option.ite_none_right_eq_some.1 h
    rw [← Option.some.inj htrue]
    rfl

@[simp] theorem restored_restored (s : AddressSpace) : s.restored.restored = s.restored := by
  unfold restored
  rw [List.map_map]
  rfl

@[simp] theorem restored_beginLoad (s : AddressSpace) : s.beginLoad.restored = s.restored := by
  unfold restored beginLoad
  rw [List.map_map]
  rfl

theorem restored_eq_self (h : ∀ r ∈ s.regions, r.permissions = r.declared) : s.restored = s := by
  have hmap : s.regions.map Region.restore = s.regions :=
    (List.map_congr_left fun r hr => Region.restore_eq_self (h r hr)).trans (List.map_id s.regions)
  unfold restored
  rw [hmap]

/-! ## The invariant -/

/-- Pages and regions allow at least the writes they are to allow, and no more unless a load is in
progress. -/
structure Disciplined (loading : Prop) (s : AddressSpace) (m : TableMap) : Prop where
  widened : ∀ r ∈ s.regions, r.declared.writable = true → r.permissions.writable = true
  declared : ¬ loading → ∀ r ∈ s.regions, r.permissions = r.declared
  page : ∀ i j pg, m.page i j = some pg → ∃ writable,
    s.restored.grants (pageAt i j) = some writable ∧ (writable = true → pg.writable = true) ∧
      (¬ loading → pg.writable = writable)

namespace Disciplined

variable {loading loading' : Prop} {m m' : TableMap}

theorem of_vacant (hregions : s.regions = []) : Disciplined loading s .vacant where
  widened r hr := by
    rw [hregions] at hr
    exact absurd hr List.not_mem_nil
  declared _ r hr := by
    rw [hregions] at hr
    exact absurd hr List.not_mem_nil
  page i j pg hpg := by
    rw [TableMap.page_of_closed rfl] at hpg
    cases hpg

variable (h : Disciplined loading s m)
include h

theorem mono (hloading : loading → loading') : Disciplined loading' s m where
  widened := h.widened
  declared hnot := h.declared (mt hloading hnot)
  page i j pg hpg := by
    obtain ⟨writable, hgrants, hle, heq⟩ := h.page i j pg hpg
    exact ⟨writable, hgrants, hle, fun hnot => heq (mt hloading hnot)⟩

/-- Without a load in progress the permissions in force are the declared ones. -/
theorem restored_eq (hnot : ¬ loading) : s.restored = s := restored_eq_self (h.declared hnot)

/-- What is in force is no less than what was declared. -/
theorem grants_restored (hgrants : s.grants a = some writable) : ∃ declared,
    s.restored.grants a = some declared ∧ (declared = true → writable = true) ∧
      (¬ loading → writable = declared) := by
  unfold grants at hgrants ⊢
  rw [newestAt_restored]
  cases hnewest : s.newestAt a with
  | some r =>
    have hr := mem_regions_of_newestAt hnewest
    rw [hnewest] at hgrants
    obtain rfl := Option.some.inj hgrants
    refine ⟨r.declared.writable, rfl, h.widened r hr, fun hnot => ?_⟩
    rw [h.declared hnot r hr]
  | none =>
    rw [hnewest] at hgrants
    exact ⟨writable, hgrants, id, fun _ => rfl⟩

theorem beginLoad (hloading : loading') : Disciplined loading' s.beginLoad m where
  widened r hr _ := by
    obtain ⟨r', -, rfl⟩ := List.mem_map.1 hr
    rfl
  declared hnot := absurd hloading hnot
  page i j pg hpg := by
    obtain ⟨writable, hgrants, hle, -⟩ := h.page i j pg hpg
    rw [restored_beginLoad]
    exact ⟨writable, hgrants, hle, fun hnot => absurd hloading hnot⟩

/-- Sealing takes write permission from just the pages that are not to have it. -/
theorem endLoad (hm' : ∀ i j, m'.page i j = (m.page i j).map fun pg =>
      if s.restored.seals (pageAt i j) then pg.readOnly else pg) :
    Disciplined loading' s.restored m' where
  widened r hr := by
    obtain ⟨r', -, rfl⟩ := List.mem_map.1 hr
    exact id
  declared _ r hr := by
    obtain ⟨r', -, rfl⟩ := List.mem_map.1 hr
    rfl
  page i j pg hpg := by
    rw [hm'] at hpg
    obtain ⟨pg', hpg', rfl⟩ := Option.map_eq_some_iff.1 hpg
    obtain ⟨writable, hgrants, hle, -⟩ := h.page i j pg' hpg'
    rw [restored_restored, seals_of_grants hgrants]
    refine ⟨writable, hgrants, ?_⟩
    cases writable with
    | true => exact ⟨fun _ => hle rfl, fun _ => hle rfl⟩
    | false => exact ⟨fun hfalse => absurd hfalse Bool.false_ne_true, fun _ => rfl⟩

/-- A region that covers no page that is resident leaves the pages what they are to be. -/
theorem addRegion (hregions : s'.regions = s.regions ++ [r]) (hdeclared : r.permissions = r.declared)
    (hmisses : ∀ i j pg, m.page i j = some pg → r.covers (pageAt i j) = false) :
    Disciplined loading s' m where
  widened r' hr' := by
    rw [hregions] at hr'
    rcases List.mem_append.1 hr' with hold | hnew
    · exact h.widened r' hold
    · obtain rfl := List.mem_singleton.1 hnew
      rw [hdeclared]
      exact id
  declared hnot r' hr' := by
    rw [hregions] at hr'
    rcases List.mem_append.1 hr' with hold | hnew
    · exact h.declared hnot r' hold
    · obtain rfl := List.mem_singleton.1 hnew
      exact hdeclared
  page i j pg hpg := by
    have hrestored : s'.restored.regions = s.restored.regions ++ [r.restore] := by
      unfold restored
      rw [hregions, List.map_append, List.map_singleton]
    rw [grants_congr (newestAt_of_append hrestored (hmisses i j pg hpg))]
    exact h.page i j pg hpg

/-- A page that is mapped gets the permission in force. -/
theorem maps (hs : s.Sound) (hgrants : s.grants a = some writable)
    (hmaps : m.Maps a.directoryIndex a.tableIndex writable m') : Disciplined loading s m' where
  widened := h.widened
  declared := h.declared
  page i j pg hpg := by
    by_cases hat : i = a.directoryIndex ∧ j = a.tableIndex
    · obtain ⟨rfl, rfl⟩ := hat
      obtain ⟨f, hmapped⟩ := hmaps.mapped
      cases hold : m.page a.directoryIndex a.tableIndex with
      | some pg' =>
        rw [hold, Option.getD_some, hpg] at hmapped
        obtain rfl := Option.some.inj hmapped
        exact h.page _ _ pg hold
      | none =>
        rw [hold, Option.getD_none, hpg] at hmapped
        obtain rfl := Option.some.inj hmapped
        rw [Address.pageAt_position, hs.restored.grants_pageBase]
        exact h.grants_restored hgrants
    · rw [hmaps.kept i j hat] at hpg
      exact h.page i j pg hpg

/-- Another table with pages of the same permissions. -/
theorem withTable (t : PageTable)
    (hpages : ∀ i j, (m'.page i j).map Page.writable = (m.page i j).map Page.writable) :
    Disciplined loading { s with table := t } m' where
  widened := h.widened
  declared := h.declared
  page i j pg hpg := by
    have heq := hpages i j
    rw [hpg, Option.map_some] at heq
    obtain ⟨pg', hpg', hwritable⟩ := Option.map_eq_some_iff.1 heq.symm
    rw [← hwritable]
    exact h.page i j pg' hpg'

/-- Without a load in progress, a page is writable if write permission is granted there. -/
theorem writable_iff (hs : s.Sound) (hnot : ¬ loading) {pg : Page}
    (hpg : m.page a.directoryIndex a.tableIndex = some pg) :
    pg.writable = true ↔ s.grants a = some true := by
  obtain ⟨writable, hgrants, -, heq⟩ := h.page _ _ pg hpg
  rw [h.restored_eq hnot, Address.pageAt_position, hs.grants_pageBase] at hgrants
  rw [hgrants, heq hnot, Option.some.injEq]

end Disciplined

end AddressSpace

end SoftPaging
