import Mathlib
import SoftPaging.Proofs.Space.Discipline

/-!
# Where a region ends

The end of a region is computed in three steps, each of which must stay within a word. Since the end
must also lie below the user stack, far below the largest word, the steps never decide: the region has
a place just when the bytes asked for, rounded up to whole pages without any bound, end below the stack
(`AddressSpace.regionEnd?_eq_some_iff`). What a space is after the region was defined is
`AddressSpace.Defines`.
-/

namespace SoftPaging

/-- The end of the last page that the first `n` bytes touch. -/
def roundUp (n : Nat) : Nat := n ⌈/⌉ pageSize * pageSize

theorem roundUp_eq (n : Nat) : roundUp n = (n + (pageSize - 1)) / pageSize * pageSize := by
  unfold roundUp
  rw [Nat.ceilDiv_eq_add_pred_div]
  rfl

/-- It is the least number of whole pages that is not below `n`. -/
theorem isLeast_roundUp (n : Nat) : IsLeast {m | n ≤ m ∧ m % pageSize = 0} (roundUp n) := by
  have hleast := isLeast_ceilDiv_mul n pageSize (by decide)
  simpa only [Nat.dvd_iff_mod_eq_zero, and_comm, roundUp] using hleast

/-- Whole pages are not rounded. -/
theorem roundUp_mul_add (m n : Nat) : roundUp (m * pageSize + n) = m * pageSize + roundUp n := by
  rw [roundUp_eq, roundUp_eq]
  simp only [pageSize]
  omega

namespace AddressSpace

variable {s s' : AddressSpace} {start a : VirtualAddress} {size past : Nat}
  {permissions : Permissions}

/-- The checked steps find the end of a region just when that lies below the user stack. -/
theorem regionEnd?_eq_some_iff :
    regionEnd? start.pageBase.val start.pageOffset size userStackTop = some past ↔
      past = roundUp (start.val + size) ∧ past < userStackTop := by
  have hstart : start.val = start.val / pageSize * pageSize + start.pageOffset := by
    rw [Address.pageOffset_eq, Nat.div_add_mod']
  have hend : roundUp (start.val + size) =
      start.pageBase.val + (size + start.pageOffset + (pageSize - 1)) / pageSize * pageSize := by
    conv_lhs => rw [hstart, Nat.add_assoc, roundUp_mul_add, Nat.add_comm _ size, roundUp_eq]
    rw [Address.pageBase_val]
  have hcovered : size + start.pageOffset ≤
      (size + start.pageOffset + (pageSize - 1)) / pageSize * pageSize := by
    rw [← roundUp_eq]
    exact (isLeast_roundUp _).1.1
  have hword : userStackTop ≤ wordLimit := by decide
  unfold regionEnd? word?
  simp only [Option.bind_eq_bind, Option.bind_eq_some_iff, Option.ite_none_right_eq_some,
    Option.some.injEq]
  constructor
  · rintro ⟨_, ⟨-, rfl⟩, _, ⟨-, rfl⟩, _, ⟨-, rfl⟩, htop, rfl⟩
    exact ⟨hend.symm, htop⟩
  · rintro ⟨rfl, htop⟩
    rw [hend] at htop ⊢
    exact ⟨_, ⟨by omega, rfl⟩, _, ⟨by omega, rfl⟩, _, ⟨by omega, rfl⟩, htop, rfl⟩

theorem regionEnd?_eq_none_iff :
    regionEnd? start.pageBase.val start.pageOffset size userStackTop = none ↔
      ¬ roundUp (start.val + size) < userStackTop := by
  rw [Option.eq_none_iff_forall_not_mem]
  exact ⟨fun h htop => h _ (regionEnd?_eq_some_iff.2 ⟨rfl, htop⟩),
    fun h _ hpast => h (by obtain ⟨rfl, htop⟩ := regionEnd?_eq_some_iff.1 hpast; exact htop)⟩

/-- The space `s'` is `s` with one more region, `r`, of so many bytes from `start` on, widened to
whole pages: `r` comes behind all others, the heap lies right behind it, and it answers for its
addresses. -/
structure Defines (s : AddressSpace) (start : VirtualAddress) (size : Nat)
    (permissions : Permissions) (r : Region) (s' : AddressSpace) : Prop where
  base_eq : r.base.val = start.val / pageSize * pageSize
  past_eq : r.base.val + r.size = roundUp (start.val + size)
  permissions_eq : r.permissions = permissions
  declared_eq : r.declared = permissions
  regions_eq : s'.regions = s.regions ++ [r]
  heapStart_eq : s'.heapStart.val = roundUp (start.val + size)
  heapEnd_eq : s'.heapEnd.val = roundUp (start.val + size)
  stackTop_eq : s'.stackTop = s.stackTop
  table_eq : s'.table = s.table
  regionAt_within : ∀ a : VirtualAddress, r.base.val ≤ a.val →
    a.val < roundUp (start.val + size) → s'.regionAt a = .ok (some r)
  regionAt_elsewhere : ∀ a : VirtualAddress, ¬ (r.base.val ≤ a.val ∧
    a.val < roundUp (start.val + size)) → s'.regionAt a = s.regionAt a

theorem Sound.defines (h : s.Sound) {heap : VirtualAddress}
    (hend : regionEnd? start.pageBase.val start.pageOffset size userStackTop = some heap.val)
    (permissions : Permissions) :
    s.Defines start size permissions (.spanning start heap.val permissions)
      (s.defining start heap permissions) := by
  have hheap := (regionEnd?_eq_some_iff.1 hend).1
  have hsound := h.defining hend permissions
  have hpast : start.pageBase.val + (heap.val - start.pageBase.val) = heap.val :=
    Nat.add_sub_cancel' (of_regionEnd? hend).1
  have hcovers (a : VirtualAddress) : (Region.spanning start heap.val permissions).covers a = true ↔
      start.pageBase.val ≤ a.val ∧ a.val < roundUp (start.val + size) := by
    rw [Region.covers, Bool.and_eq_true, decide_eq_true_iff, decide_eq_true_iff]
    show _ ∧ a.val < start.pageBase.val + (heap.val - start.pageBase.val) ↔ _
    rw [hpast, hheap]
    rfl
  refine ⟨Address.pageBase_val _, hpast.trans hheap, rfl, rfl, rfl, hheap, hheap, rfl, rfl,
    fun a hlow hhigh => ?_, fun a hout => ?_⟩
  · rw [hsound.regionAt_eq, newestAt_of_last List.getLast?_concat ((hcovers a).2 ⟨hlow, hhigh⟩)]
  · rw [hsound.regionAt_eq, h.regionAt_eq,
      newestAt_of_append rfl (Bool.eq_false_iff.2 fun hc => hout ((hcovers a).1 hc))]

end AddressSpace

end SoftPaging
