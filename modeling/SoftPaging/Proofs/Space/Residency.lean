import Mathlib
import SoftPaging.Proofs.Space.Discipline

/-!
# Where pages may be resident

A space sanctions a page when one of its regions contains the whole page, or the window of the stack
does. A fault maps no other page, and nothing that is done to a space later takes a page out of what
it sanctions: regions are added and change their permissions, but none is taken away or made smaller.
So every page of a space is sanctioned by it (`AddressSpace.Admits`). As regions and stack end at the
kernel segment, no page of it is ever resident, and none of its slots is ever open.
-/

namespace SoftPaging

namespace Address

@[simp] theorem pageBase_pageBase {realm : Realm} (a : Address realm) :
    a.pageBase.pageBase = a.pageBase := by
  apply Address.ext
  simp only [pageBase_val, Nat.mul_div_cancel _ (show 0 < pageSize by decide)]

end Address

namespace Region

variable {r : Region} {a : VirtualAddress}

/-- The region has all of the page of the address. -/
def HasPage (r : Region) (a : VirtualAddress) : Prop :=
  r.base.val ≤ a.pageBase.val ∧ a.pageBase.val + pageSize ≤ r.base.val + r.size

theorem Sound.hasPage (h : r.Sound) (hcovers : r.covers a = true) : r.HasPage a := by
  have hbase := h.base_aligned
  have hsize := h.size_aligned
  unfold covers at hcovers
  unfold HasPage
  rw [Address.pageBase_val]
  simp only [pageSize, Bool.and_eq_true, decide_eq_true_eq] at *
  omega

end Region

namespace AddressSpace

variable {s s' : AddressSpace} {a : VirtualAddress} {m m' : TableMap} {writable : Bool}

/-- The page of the address lies in a region of the space, or in the window of the stack. -/
def Sanctions (s : AddressSpace) (a : VirtualAddress) : Prop :=
  (∃ r ∈ s.regions, r.HasPage a) ∨
    (userStackTop - stackGrowthPages * pageSize ≤ a.pageBase.val ∧
      a.pageBase.val + pageSize ≤ userStackTop)

/-- All of the window belongs to whole pages. -/
theorem page_of_inWindow (h : inWindow a = true) :
    userStackTop - stackGrowthPages * pageSize ≤ a.pageBase.val ∧
      a.pageBase.val + pageSize ≤ userStackTop := by
  unfold inWindow at h
  rw [Address.pageBase_val]
  simp only [userStackTop, kernelSegment, stackGrowthPages, pageSize, Bool.and_eq_true,
    decide_eq_true_eq] at *
  omega

theorem sanctions_pageBase : s.Sanctions a.pageBase ↔ s.Sanctions a := by
  simp only [Sanctions, Region.HasPage, Address.pageBase_pageBase]

/-- The regions of a space are still there, maybe with other permissions, and maybe with more. -/
def Extends (s' s : AddressSpace) : Prop :=
  ∀ r ∈ s.regions, ∃ r' ∈ s'.regions, r'.base = r.base ∧ r'.size = r.size

theorem extends_mapRegions {f : Region → Region}
    (hf : ∀ r, (f r).base = r.base ∧ (f r).size = r.size) :
    { s with regions := s.regions.map f }.Extends s :=
  fun r hr => ⟨f r, List.mem_map_of_mem hr, hf r⟩

theorem extends_beginLoad (s : AddressSpace) : s.beginLoad.Extends s :=
  extends_mapRegions fun _ => ⟨rfl, rfl⟩

theorem extends_restored (s : AddressSpace) : s.restored.Extends s :=
  extends_mapRegions fun _ => ⟨rfl, rfl⟩

theorem extends_append {rs : List Region} (h : s'.regions = s.regions ++ rs) : s'.Extends s := by
  intro r hr
  have hr' : r ∈ s'.regions := by
    rw [h]
    exact List.mem_append_left rs hr
  exact ⟨r, hr', rfl, rfl⟩

theorem extends_of_regions (h : s'.regions = s.regions) : s'.Extends s := by
  intro r hr
  rw [← h] at hr
  exact ⟨r, hr, rfl, rfl⟩

theorem Sanctions.mono (h : s.Sanctions a) (hext : s'.Extends s) : s'.Sanctions a := by
  apply h.imp_left
  rintro ⟨r, hr, hpage⟩
  obtain ⟨r', hr', hbase, hsize⟩ := hext r hr
  refine ⟨r', hr', ?_⟩
  unfold Region.HasPage
  rw [hbase, hsize]
  exact hpage

namespace Sound

variable (h : s.Sound)
include h

/-- What a fault would be granted is sanctioned. -/
theorem sanctions_of_grants (hgrants : s.grants a = some writable) : s.Sanctions a := by
  unfold grants at hgrants
  cases hnewest : s.newestAt a with
  | some r =>
    have hr := mem_regions_of_newestAt hnewest
    exact .inl ⟨r, hr, (h.regions_sound r hr).hasPage (covers_of_newestAt hnewest)⟩
  | none =>
    rw [hnewest] at hgrants
    obtain ⟨hwindow, -⟩ := Option.ite_none_right_eq_some.1 hgrants
    exact .inr (page_of_inWindow hwindow)

/-- What is sanctioned lies below the kernel segment. -/
theorem lt_of_sanctions (ha : s.Sanctions a) : a.val < kernelSegment := by
  have hpage : a.val < a.pageBase.val + pageSize := by
    rw [Address.pageBase_val]
    simp only [pageSize]
    omega
  rcases ha with ⟨r, hr, hregion⟩ | hwindow
  · have hend := (h.regions_sound r hr).end_lt
    exact Nat.lt_trans (Nat.lt_of_lt_of_le hpage hregion.2) hend
  · exact Nat.lt_of_lt_of_le hpage hwindow.2

theorem directoryIndex_lt (ha : s.Sanctions a) : a.directoryIndex.val < 512 := by
  have hlt := h.lt_of_sanctions ha
  rw [Address.directoryIndex_val]
  simp only [kernelSegment] at hlt
  omega

end Sound

/-! ## The invariant -/

/-- Only sanctioned pages are resident, and no slot of the kernel segment is open. -/
structure Admits (s : AddressSpace) (m : TableMap) : Prop where
  page : ∀ i j, (m.page i j).isSome = true → s.Sanctions (pageAt i j)
  slot : ∀ i, (m i).isSome = true → i.val < 512

theorem admits_vacant (s : AddressSpace) : s.Admits .vacant where
  page i j hij := by cases hij
  slot i hi := by cases hi

namespace Admits

variable (h : s.Admits m)
include h

theorem mono (hext : s'.Extends s) : s'.Admits m :=
  ⟨fun i j hij => (h.page i j hij).mono hext, h.slot⟩

theorem of_under (hunder : m'.Under m) : s.Admits m' :=
  ⟨fun i j hij => h.page i j (hunder.page i j hij), fun i hi => h.slot i (hunder.slot i hi)⟩

/-- A page that is mapped as it was granted is sanctioned, and so is its slot. -/
theorem maps (hs : s.Sound) (hgrants : s.grants a = some writable)
    (hmaps : m.Maps a.directoryIndex a.tableIndex writable m') : s.Admits m' where
  page i j hij := by
    by_cases hat : i = a.directoryIndex ∧ j = a.tableIndex
    · rw [hat.1, hat.2, Address.pageAt_position, sanctions_pageBase]
      exact hs.sanctions_of_grants hgrants
    · rw [hmaps.kept i j hat] at hij
      exact h.page i j hij
  slot i hi := by
    by_cases hat : i = a.directoryIndex
    · rw [hat]
      exact hs.directoryIndex_lt (hs.sanctions_of_grants hgrants)
    · rw [hmaps.slots i hat] at hi
      exact h.slot i hi

end Admits

end AddressSpace

end SoftPaging
