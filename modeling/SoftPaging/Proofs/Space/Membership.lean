import Mathlib
import SoftPaging.Proofs.Space.Regions

/-!
# The pages of a region

A region says which addresses it contains by comparing them with its two ends, and lists its pages
by dividing the ends. For a region of whole pages whose end fits into the word, the two agree
(`Region.Whole.lists`), also for an empty one and for one that reaches past the addresses of the
machine. Opening the region for writing and putting it back touches only the permissions in force
(`after_eq`).
-/

namespace SoftPaging

/-- What a loader does to a region. -/
inductive RegionCall where
  | allowWrites
  | restore
deriving DecidableEq

namespace Region

variable {r : Region}

/-- The region after one call. -/
def call (r : Region) : RegionCall → Region
  | .allowWrites => r.allowWrites
  | .restore => r.restore

/-- The region after several calls, in order. -/
def after (r : Region) (calls : List RegionCall) : Region :=
  calls.foldl call r

/-- The region consists of whole pages and its end fits into the word. -/
structure Whole (r : Region) : Prop where
  base_aligned : r.base.val % pageSize = 0
  size_aligned : r.size % pageSize = 0
  end_lt : r.base.val + r.size < wordLimit

/-- As many pages as fit into the region, from that of its base on. -/
def pageList (r : Region) : List PageNumber :=
  (List.range' r.base.number.val (r.size / pageSize)).map Number.mk

/-- The pages of the region are these: as many as fit into it, in order from that of its base on. It
contains the addresses on these pages and no others. -/
structure Lists (r : Region) (pages : List PageNumber) : Prop where
  pages_eq : r.pages = .ok pages
  increasing : pages.Pairwise fun n m => n.val < m.val
  length_eq : pages.length = r.size / pageSize
  head?_eq : 0 < r.size → pages.head? = some r.base.number
  contains_eq : ∀ a, r.contains a = .ok (decide (a.number ∈ pages))
  constant : ∀ a b : VirtualAddress, a.number = b.number → r.contains a = r.contains b

/-! ## Calls -/

theorem after_concat (r : Region) (calls : List RegionCall) (c : RegionCall) :
    r.after (calls ++ [c]) = (r.after calls).call c :=
  List.foldl_concat ..

theorem withWrite_eq_union (p : Permissions) : p.withWrite = p.union ⟨false, true, false⟩ := by
  simp [Permissions.withWrite, Permissions.union]

/-- Calls touch only the permissions in force, and of them the last call alone decides. -/
theorem after_eq (h : r.permissions = r.declared) (calls : List RegionCall) :
    r.after calls = { r with
      permissions := if calls.getLast? = some .allowWrites then
        r.declared.union ⟨false, true, false⟩ else r.declared } := by
  induction calls using List.reverseRecOn with
  | nil =>
    obtain ⟨base, size, permissions, declared⟩ := r
    obtain rfl : permissions = declared := h
    rfl
  | append_singleton calls c ih =>
    rw [after_concat, ih, List.getLast?_concat]
    cases c with
    | allowWrites =>
      -- granting what was granted before changes nothing
      split <;> simp [call, allowWrites, withWrite_eq_union, Permissions.union]
    | restore => simp [call, restore]

/-! ## Pages -/

theorem define_eq_ok {base : VirtualAddress} {size : Nat} (hbase : base.val % pageSize = 0)
    (hsize : size % pageSize = 0) (permissions : Permissions) :
    define base size permissions = .ok ⟨base, size, permissions, permissions⟩ := by
  have haligned : base.isPageAligned = true := Address.isPageAligned_iff.2 hbase
  unfold define
  rw [Address.isAligned_pageSize, haligned, hsize]
  rfl

/-- The pages are counted from that of the base on. -/
theorem Whole.pages_eq (h : r.Whole) : r.pages = .ok r.pageList := by
  have hcount : (r.base.val + r.size) / pageSize - r.base.number.val = r.size / pageSize := by
    have hbase := h.base_aligned
    rw [Address.number_val]
    simp only [pageSize] at *
    omega
  unfold pages pageBounds limit checkedAdd Number.upTo pageList
  rw [if_pos h.end_lt, ← hcount]
  rfl

theorem mem_pageList {n : PageNumber} : n ∈ r.pageList ↔
    r.base.number.val ≤ n.val ∧ n.val < r.base.number.val + r.size / pageSize := by
  obtain ⟨i⟩ := n
  rw [pageList, List.mem_map_of_injective fun _ _ => Number.mk.inj, List.mem_range'_1]

/-- The comparison with the ends of the region finds the addresses on its pages. -/
theorem Whole.covers_iff (h : r.Whole) (a : VirtualAddress) :
    r.covers a = true ↔ a.number ∈ r.pageList := by
  have hbase := h.base_aligned
  have hsize := h.size_aligned
  rw [mem_pageList, Address.number_val, Address.number_val]
  unfold covers
  simp only [Bool.and_eq_true, decide_eq_true_eq, pageSize] at *
  omega

/-- A region of whole pages contains the addresses on the pages that it lists. -/
theorem Whole.lists (h : r.Whole) : r.Lists r.pageList := by
  have hcontains (a : VirtualAddress) : r.contains a = .ok (decide (a.number ∈ r.pageList)) := by
    have hdecide : r.covers a = decide (a.number ∈ r.pageList) := by
      rw [Bool.eq_iff_iff, h.covers_iff, decide_eq_true_iff]
    rw [contains_of_lt h.end_lt, hdecide]
  constructor
  · exact h.pages_eq
  · rw [pageList, List.pairwise_map]
    exact List.pairwise_lt_range'
  · simp [pageList]
  · intro hpos
    have hcount : r.size / pageSize ≠ 0 := by
      have hsize := h.size_aligned
      simp only [pageSize] at *
      omega
    simp [pageList, List.head?_range', hcount]
  · exact hcontains
  · intro a b hab
    rw [hcontains, hcontains, hab]

/-- A region of whole pages whose end fits into the word can be defined, and after any calls it
contains just the addresses on the pages that it lists. The permissions it was defined with stay,
and write access is added to them as long as the last call granted it. -/
theorem membership_agrees (base : VirtualAddress) (size : Nat) (permissions : Permissions)
    (calls : List RegionCall) (hbase : base.val % pageSize = 0) (hsize : size % pageSize = 0)
    (hend : base.val + size < wordLimit) :
    ∃ r pages, define base size permissions = .ok r ∧
      (r.after calls).base = base ∧ (r.after calls).size = size ∧ (r.after calls).Lists pages ∧
      (r.after calls).declared = permissions ∧
      (r.after calls).permissions = if calls.getLast? = some .allowWrites then
        permissions.union ⟨false, true, false⟩ else permissions := by
  refine ⟨⟨base, size, permissions, permissions⟩,
    pageList ⟨base, size, permissions, permissions⟩, define_eq_ok hbase hsize permissions, ?_⟩
  rw [after_eq rfl]
  exact ⟨rfl, rfl, Whole.lists ⟨hbase, hsize, hend⟩, rfl, rfl⟩

/-- A region that reaches far past the addresses of the machine, after it was opened, put back and
opened again. -/
theorem membership_past_machine : ∃ r pages,
    define ⟨0x00400000, by decide⟩ 0x1000000000 ⟨true, false, true⟩ = .ok r ∧
    (r.after [.allowWrites, .restore, .allowWrites]).Lists pages ∧ pages.length = 16777216 ∧
    (r.after [.allowWrites, .restore, .allowWrites]).declared = ⟨true, false, true⟩ ∧
    (r.after [.allowWrites, .restore, .allowWrites]).permissions = ⟨true, true, true⟩ := by
  obtain ⟨r, pages, hdefine, -, hsize, hlists, hdeclared, hpermissions⟩ :=
    membership_agrees ⟨0x00400000, by decide⟩ 0x1000000000 ⟨true, false, true⟩
      [.allowWrites, .restore, .allowWrites] rfl rfl (by decide)
  refine ⟨r, pages, hdefine, hlists, ?_, hdeclared, hpermissions⟩
  rw [hlists.length_eq, hsize]
  rfl

end Region

end SoftPaging
