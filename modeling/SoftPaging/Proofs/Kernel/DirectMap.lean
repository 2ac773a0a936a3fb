import Mathlib
import SoftPaging.Address.DirectMap

/-!
# The direct map there and back

On positions, which are words of 64 bits, the two directions of a direct map undo each other wherever
they answer (`DirectMap.kernelOf_eq_ok_iff`): sums and differences wrap alike, and both directions look
at the same position when they ask whether it is inside a window. On addresses one more thing is
checked, in different places: a segment has kernel addresses of the machine only (`DirectMap.Names`), and
what is reached is a machine address. So the map is a bijection between the physical addresses that it
reaches and the kernel addresses that it has and that reach one (`DirectMap.reach_eq_ok_iff_reached`).

Under a window these are told by comparing (`DirectMap.exists_reach_window_iff`,
`DirectMap.exists_reached_window_iff`), as long as the window ends inside the word: a kernel address below
its base is so far up, once the difference has wrapped, that it is outside.
-/

namespace SoftPaging

/-- A physical address, as the position that is looked up, is not cut off. -/
theorem Address.toNat_toUInt64 {realm : Realm} (a : Address realm) :
    a.val.toUInt64.toNat = a.val :=
  Nat.mod_eq_of_lt (Nat.lt_trans a.val_lt (by decide))

namespace DirectMap

/-- The kernel addresses of a direct map: those of the machine in a segment, and all those of the host
under a window. -/
def Names : DirectMap → KernelAddress → Prop
  | segment _, v => v.toNat < addressLimit
  | window _ _, _ => True

instance : (m : DirectMap) → DecidablePred m.Names
  | segment _ => fun v => inferInstanceAs (Decidable (v.toNat < addressLimit))
  | window _ _ => fun _ => inferInstanceAs (Decidable True)

variable {m : DirectMap} {a : PhysicalAddress} {v : KernelAddress} {position base : UInt64} {size : Nat}

theorem kernelOf_window_eq_ok_iff :
    (window base size).kernelOf position = .ok v ↔ position.toNat < size ∧ base + position = v := by
  change (if position.toNat < size then _ else _) = _ ↔ _
  split <;> simp_all

theorem physicalOf_window_eq_ok_iff :
    (window base size).physicalOf v = .ok position ↔ (v - base).toNat < size ∧ v - base = position := by
  change (if (v - base).toNat < size then _ else _) = _ ↔ _
  split <;> simp_all

/-- The two directions of the map undo each other. -/
theorem kernelOf_eq_ok_iff : m.kernelOf position = .ok v ↔ m.physicalOf v = .ok position := by
  cases m with
  | segment offset =>
    rw [kernelOf, physicalOf, Except.ok.injEq, Except.ok.injEq]
    constructor
    · rintro rfl
      exact UInt64.add_sub_cancel _ _
    · rintro rfl
      exact UInt64.sub_add_cancel _ _
  | window base size =>
    rw [kernelOf_window_eq_ok_iff, physicalOf_window_eq_ok_iff]
    constructor
    · rintro ⟨hlt, rfl⟩
      have hback : base + position - base = position := by
        rw [UInt64.add_comm, UInt64.add_sub_cancel]
      exact ⟨hback.symm ▸ hlt, hback⟩
    · rintro ⟨hlt, rfl⟩
      exact ⟨hlt, by rw [UInt64.add_comm, UInt64.sub_add_cancel]⟩

theorem reach_eq_ok_iff : m.reach a = .ok v ↔ m.kernelOf a.val.toUInt64 = .ok v ∧ m.Names v := by
  unfold reach
  rw [bind_eq_ok_iff]
  cases m with
  | segment offset =>
    simp only [bind_eq_ok_iff, require_eq_ok_iff, decide_eq_true_eq, Names]
    constructor
    · rintro ⟨_, hv, _, hlt, heq⟩
      obtain rfl := Except.ok.inj heq
      exact ⟨hv, hlt⟩
    · rintro ⟨hv, hlt⟩
      exact ⟨v, hv, (), hlt, rfl⟩
  | window base size =>
    constructor
    · rintro ⟨_, hv, heq⟩
      obtain rfl := Except.ok.inj heq
      exact ⟨hv, trivial⟩
    · rintro ⟨hv, -⟩
      exact ⟨v, hv, rfl⟩

theorem reached_eq_ok_iff : m.reached v = .ok a ↔ m.physicalOf v = .ok a.val.toUInt64 := by
  unfold reached
  rw [bind_eq_ok_iff]
  constructor
  · rintro ⟨position, hposition, ha⟩
    obtain ⟨hlt, rfl⟩ : ∃ h : position.toNat < addressLimit, ⟨position.toNat, h⟩ = a := by
      unfold Address.ofNat at ha
      split at ha
      · next hlt => exact ⟨hlt, Except.ok.inj ha⟩
      · cases ha
    rw [hposition]
    rw [UInt64.toNat_inj.1 (Address.toNat_toUInt64 ⟨position.toNat, hlt⟩)]
  · intro hposition
    exact ⟨_, hposition, by rw [Address.toNat_toUInt64, Address.ofNat_val]⟩

/-- A physical address is reached through a kernel address just when that is one of the map's and
reaches it. -/
theorem reach_eq_ok_iff_reached : m.reach a = .ok v ↔ m.Names v ∧ m.reached v = .ok a := by
  rw [reach_eq_ok_iff, reached_eq_ok_iff, kernelOf_eq_ok_iff, and_comm]

/-- The direct map leads back from where it leads to. -/
theorem reached_reach (h : m.reach a = .ok v) : m.reached v = .ok a :=
  (reach_eq_ok_iff_reached.1 h).2

/-! ## Windows -/

/-- A window reaches the physical addresses below its size. -/
theorem exists_reach_window_iff : (∃ v, (window base size).reach a = .ok v) ↔ a.val < size := by
  constructor
  · rintro ⟨v, hv⟩
    have hlt := (kernelOf_window_eq_ok_iff.1 (reach_eq_ok_iff.1 hv).1).1
    rwa [Address.toNat_toUInt64] at hlt
  · exact fun hlt => ⟨_, reach_window hlt⟩

/-- The kernel addresses that reach RAM are those between the base of the window and its end. -/
theorem exists_reached_window_iff (hend : base.toNat + size ≤ wordLimit) (hsize : size ≤ addressLimit) :
    (∃ a, (window base size).reached v = .ok a) ↔
      base.toNat ≤ v.toNat ∧ v.toNat < base.toNat + size := by
  -- the difference wraps for a kernel address below the base, and is then too large for the window
  have hinside : (v - base).toNat < size ↔
      base.toNat ≤ v.toNat ∧ v.toNat < base.toNat + size := by
    have hv := v.toNat_lt
    have hbase := base.toNat_lt
    simp only [wordLimit] at hend
    rw [UInt64.toNat_sub]
    omega
  rw [← hinside]
  constructor
  · rintro ⟨a, ha⟩
    exact (physicalOf_window_eq_ok_iff.1 (reached_eq_ok_iff.1 ha)).1
  · intro hlt
    refine ⟨⟨(v - base).toNat, Nat.lt_of_lt_of_le hlt hsize⟩, reached_eq_ok_iff.2 ?_⟩
    refine physicalOf_window_eq_ok_iff.2 ⟨hlt, UInt64.toNat_inj.1 ?_⟩
    rw [Address.toNat_toUInt64]

end DirectMap

end SoftPaging
