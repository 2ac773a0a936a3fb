import Mathlib
import SoftPaging.Space.Fault
import SoftPaging.Proofs.Kernel.Meets
import SoftPaging.Proofs.Pool.Address

/-!
# Regions of an address space

The regions that an address space is given by its loader consist of whole pages and end below the
stack. With that, looking an address up among them never halts: it is a plain search for the newest
region that covers the address (`AddressSpace.Sound.regionAt_eq`). Defining a region keeps this, and
what it leaves of the kernel is one more line in the log.
-/

namespace SoftPaging

open Outcome

/-! ## One region -/

namespace Region

variable {r : Region}

/-- The region consists of whole pages and ends below the user stack. -/
structure Sound (r : Region) : Prop where
  base_aligned : r.base.val % pageSize = 0
  size_aligned : r.size % pageSize = 0
  end_lt : r.base.val + r.size < userStackTop

/-- Whether the address lies in the region. -/
def covers (r : Region) (a : VirtualAddress) : Bool :=
  r.base.val ≤ a.val && a.val < r.base.val + r.size

/-- Where the end of the region fits into the word, looking an address up never halts. -/
theorem contains_of_lt (hword : r.base.val + r.size < wordLimit) (a : VirtualAddress) :
    r.contains a = .ok (r.covers a) := by
  unfold contains covers limit checkedAdd
  rw [if_pos hword]
  by_cases hbase : r.base.val ≤ a.val
  · rw [if_pos hbase, decide_eq_true hbase, Bool.true_and]
    rfl
  · rw [if_neg hbase, decide_eq_false hbase, Bool.false_and]
    rfl

theorem contains_eq (h : r.Sound) (a : VirtualAddress) : r.contains a = .ok (r.covers a) :=
  contains_of_lt (Nat.lt_trans h.end_lt (by decide)) a

/-- The region from the page of `start` up to `past`, with its permissions in force. -/
def spanning (start : VirtualAddress) (past : Nat) (permissions : Permissions) : Region :=
  ⟨start.pageBase, past - start.pageBase.val, permissions, permissions⟩

/-- A region has all of a page or nothing of it. -/
theorem Sound.covers_pageBase (h : r.Sound) (a : VirtualAddress) :
    r.covers a.pageBase = r.covers a := by
  have hbase := h.base_aligned
  have hsize := h.size_aligned
  unfold covers
  rw [Address.pageBase_val]
  simp only [pageSize] at *
  rw [Bool.eq_iff_iff]
  simp only [Bool.and_eq_true, decide_eq_true_eq]
  omega

theorem Sound.allowWrites (h : r.Sound) : r.allowWrites.Sound :=
  ⟨h.base_aligned, h.size_aligned, h.end_lt⟩

theorem Sound.restore (h : r.Sound) : r.restore.Sound :=
  ⟨h.base_aligned, h.size_aligned, h.end_lt⟩

end Region

/-! ## All regions of a space -/

/-- Searching with a test that never fails. -/
theorem findM?_eq_find? {α ε : Type} {f : α → Except ε Bool} {g : α → Bool} :
    ∀ {l : List α}, (∀ x ∈ l, f x = .ok (g x)) → l.findM? f = .ok (l.find? g)
  | [], _ => rfl
  | x :: l, h => by
    obtain ⟨hx, hl⟩ := List.forall_mem_cons.1 h
    have hrest := findM?_eq_find? hl
    unfold List.findM?
    rw [hx, List.find?_cons]
    cases g x with
    | true => rfl
    | false => exact hrest

namespace AddressSpace

variable {s : AddressSpace}

/-- Whether the address lies in the window below the user stack that needs no region. -/
def inWindow (a : VirtualAddress) : Bool :=
  userStackTop - stackGrowthPages * pageSize ≤ a.val && a.val < userStackTop

/-- The newest region that covers the address. -/
def newestAt (s : AddressSpace) (a : VirtualAddress) : Option Region :=
  s.regions.reverse.find? (·.covers a)

/-- Whether the page of an address should be writable, if there should be one at all: the newest
region decides, and after the regions the window of the stack. -/
def grants (s : AddressSpace) (a : VirtualAddress) : Option Bool :=
  match s.newestAt a with
  | some r => some r.permissions.writable
  | none => if inWindow a then some true else none

/-- The space after one more region was defined, which ends where the heap now lies. -/
def defining (s : AddressSpace) (start heap : VirtualAddress) (permissions : Permissions) :
    AddressSpace :=
  { s with
    regions := s.regions ++ [.spanning start heap.val permissions]
    heapStart := heap
    heapEnd := heap }

/-- The stack starts where it does for every program, and the regions lie below it. -/
structure Sound (s : AddressSpace) : Prop where
  stackTop_eq : s.stackTop.val = userStackTop
  regions_sound : ∀ r ∈ s.regions, r.Sound

namespace Sound

theorem regionAt_eq (h : s.Sound) (a : VirtualAddress) : s.regionAt a = .ok (s.newestAt a) :=
  findM?_eq_find? fun r hr => Region.contains_eq (h.regions_sound r (List.mem_reverse.1 hr)) a

theorem inStackWindow_eq (h : s.Sound) (a : VirtualAddress) :
    s.inStackWindow a = .ok (inWindow a) := by
  have hle : stackGrowthPages * pageSize ≤ userStackTop := by decide
  unfold inStackWindow checkedSub
  rw [h.stackTop_eq, if_pos hle]
  rfl

theorem mapRegions (h : s.Sound) {f : Region → Region} (hf : ∀ r, r.Sound → (f r).Sound) :
    { s with regions := s.regions.map f }.Sound where
  stackTop_eq := h.stackTop_eq
  regions_sound r hr := by
    obtain ⟨r', hr', rfl⟩ := List.mem_map.1 hr
    exact hf r' (h.regions_sound r' hr')

theorem beginLoad (h : s.Sound) : s.beginLoad.Sound :=
  h.mapRegions fun _ => Region.Sound.allowWrites

/-- Deciding whether a page should be writable looks at the regions only. -/
theorem run_writableAt (h : s.Sound) (a : VirtualAddress) (k : Kernel) :
    (s.writableAt a).run k =
      if a.val = 0 then .refused .badAddress k
      else match s.grants a with
        | some writable => .done writable k
        | none => .refused .badAddress k := by
  unfold AddressSpace.writableAt grants
  by_cases hzero : a.val = 0
  · simp only [if_pos hzero]
    rfl
  · simp only [if_neg hzero, h.regionAt_eq, Transition.run_bind, Transition.liftM_ok,
      Transition.run_pure, andThen_done]
    cases s.newestAt a with
    | some r => rfl
    | none =>
      simp only [h.inStackWindow_eq, Transition.run_bind, Transition.liftM_ok, Transition.run_pure,
        andThen_done]
      cases inWindow a <;> rfl

/-- The newest region is the same on all of a page. -/
theorem newestAt_pageBase (h : s.Sound) (a : VirtualAddress) :
    s.newestAt a.pageBase = s.newestAt a := by
  refine List.find?_congr fun r hr => ?_
  exact (h.regions_sound r (List.mem_reverse.1 hr)).covers_pageBase a

/-- What is granted is the same on all of a page. -/
theorem grants_pageBase (h : s.Sound) (a : VirtualAddress) : s.grants a.pageBase = s.grants a := by
  have hwindow : inWindow a.pageBase = inWindow a := by
    unfold inWindow
    rw [Address.pageBase_val, Bool.eq_iff_iff]
    simp only [userStackTop, kernelSegment, stackGrowthPages, pageSize, Bool.and_eq_true, decide_eq_true_eq]
    omega
  unfold grants
  rw [h.newestAt_pageBase, hwindow]

/-- A region that fits is a whole number of pages and ends below the top. -/
theorem of_regionEnd? {base offset size top past : Nat}
    (h : regionEnd? base offset size top = some past) :
    base ≤ past ∧ (past - base) % pageSize = 0 ∧ past < top := by
  unfold regionEnd? word? at h
  simp only [Option.bind_eq_bind, Option.bind_eq_some_iff, Option.ite_none_right_eq_some,
    Option.some.injEq] at h
  obtain ⟨covered, ⟨-, rfl⟩, whole, ⟨-, rfl⟩, past', ⟨-, rfl⟩, htop, rfl⟩ := h
  refine ⟨Nat.le_add_right _ _, ?_, htop⟩
  rw [Nat.add_sub_cancel_left, Nat.mul_mod_left]

/-- A region that was found room for is sound. -/
theorem spanning_sound {start : VirtualAddress} {size past : Nat}
    (hend : regionEnd? start.pageBase.val start.pageOffset size userStackTop = some past)
    (permissions : Permissions) : (Region.spanning start past permissions).Sound := by
  obtain ⟨hle, hwhole, htop⟩ := of_regionEnd? hend
  refine ⟨by rw [Region.spanning, Address.pageBase_val, Nat.mul_mod_left], hwhole, ?_⟩
  show start.pageBase.val + (past - start.pageBase.val) < _
  rw [Nat.add_sub_cancel' hle]
  exact htop

theorem defining (h : s.Sound) {start heap : VirtualAddress} {size : Nat}
    (hend : regionEnd? start.pageBase.val start.pageOffset size userStackTop = some heap.val)
    (permissions : Permissions) : (s.defining start heap permissions).Sound where
  stackTop_eq := h.stackTop_eq
  regions_sound r hr := by
    rcases List.mem_append.1 hr with hold | hnew
    · exact h.regions_sound r hold
    · obtain rfl := List.mem_singleton.1 hnew
      exact spanning_sound hend permissions

/-- A region for which there is no room is refused. -/
theorem run_addRegion_of_none (h : s.Sound) {start : VirtualAddress} {size : Nat}
    (hend : regionEnd? start.pageBase.val start.pageOffset size userStackTop = none)
    (permissions : Permissions) (k : Kernel) :
    (s.addRegion start size permissions).run k =
      .refused .invalidRegion (k.push (.regionRejected start size s.stackTop)) := by
  unfold AddressSpace.addRegion
  simp only [Address.alignDown_pageSize, Transition.run_bind, Transition.liftM_ok,
    Transition.run_pure, andThen_done]
  rw [h.stackTop_eq, hend]
  rfl

/-- A region for which there is room is put behind the others, and the heap right behind it. -/
theorem run_addRegion_of_some (h : s.Sound) {start : VirtualAddress} {size past : Nat}
    (hend : regionEnd? start.pageBase.val start.pageOffset size userStackTop = some past)
    (permissions : Permissions) (k : Kernel) :
    ∃ heap : VirtualAddress, heap.val = past ∧ (s.addRegion start size permissions).run k =
      .done (s.defining start heap permissions)
        (k.push (.regionDefined (.spanning start past permissions))) := by
  obtain ⟨hle, hwhole, htop⟩ := of_regionEnd? hend
  have hsub : checkedSub past start.pageBase.val = .ok (past - start.pageBase.val) := if_pos hle
  have hdefine : Region.define start.pageBase (past - start.pageBase.val) permissions =
      .ok (.spanning start past permissions) := by
    have haligned : start.pageBase.isPageAligned = true :=
      Address.isPageAligned_iff.2 (spanning_sound hend permissions).base_aligned
    unfold Region.define
    rw [Address.isAligned_pageSize, haligned, hwhole]
    rfl
  have hlt : past < addressLimit := Nat.lt_trans htop (by decide)
  refine ⟨⟨past, hlt⟩, rfl, ?_⟩
  unfold AddressSpace.addRegion
  simp only [Address.alignDown_pageSize, Transition.run_bind, Transition.liftM_ok,
    Transition.run_pure, andThen_done]
  rw [h.stackTop_eq, hend]
  simp only [hsub, hdefine, Address.ofNat_of_lt hlt, Transition.run_bind, Transition.liftM_ok,
    Transition.run_pure, andThen_done, Op.run_record]
  rfl

/-- Defining a region adds it to those that are there, and keeps them sound and the page table as it
was. It is refused when there is no place for the region to end. -/
theorem addRegion (h : s.Sound) (start : VirtualAddress) (size : Nat) (permissions : Permissions)
    (k : Kernel) :
    ((s.addRegion start size permissions).run k).Meets
      (fun s' k' => s'.Sound ∧ s'.table = s.table ∧
        (∃ past, s'.regions = s.regions ++ [.spanning start past permissions] ∧
          regionEnd? start.pageBase.val start.pageOffset size userStackTop = some past) ∧
        ∃ e, k' = k.push e)
      (fun cause k' => cause = .invalidRegion ∧ (∃ e, k' = k.push e) ∧
        regionEnd? start.pageBase.val start.pageOffset size userStackTop = none) never := by
  cases hend : regionEnd? start.pageBase.val start.pageOffset size userStackTop with
  | none =>
    rw [h.run_addRegion_of_none hend]
    exact .refused ⟨rfl, ⟨_, rfl⟩, rfl⟩
  | some past =>
    obtain ⟨heap, rfl, hrun⟩ := h.run_addRegion_of_some hend permissions k
    rw [hrun]
    exact .done ⟨h.defining hend permissions, rfl, ⟨_, rfl, rfl⟩, _, rfl⟩

end Sound

end AddressSpace

end SoftPaging
