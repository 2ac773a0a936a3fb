import Mathlib
import SoftPaging.Proofs.Pool.Block

/-!
# First fit

The two searches of the pool, for a single frame and for a window of frames, find the same thing:
the lowest place where there is room (`find_firstFit`). The window search carries two facts along:
the frames it has passed in the current window are free, and no window starts below the current one.

It computes where a window would end before it looks at a record, so it halts when that leaves the
word for the first window (`find_overflow`); otherwise it always has an answer (`find_ok`).
-/

namespace SoftPaging

namespace FramePool

variable {p : FramePool} {ram : Ram}

/-- The block lies in the managed frames, and all of it is free. -/
def HasRoom (p : FramePool) (ram : Ram) (b : Block) : Prop :=
  b.Within p ∧ ∀ i ∈ b, p.isFree ram i = true

/-- The answer of a search is the lowest place with room for `count` frames, or there is none. -/
def FirstFit (p : FramePool) (ram : Ram) (count : Nat) : Option Nat → Prop
  | some s => p.HasRoom ram ⟨s, count⟩ ∧ ∀ s' < s, ¬ p.HasRoom ram ⟨s', count⟩
  | none => ∀ s, ¬ p.HasRoom ram ⟨s, count⟩

/-- Where nothing was handed out, there is room for every block in the managed frames. -/
theorem Represents.hasRoom_of_nil (h : p.Represents ram []) {b : Block} (hb : b.Within p) :
    p.HasRoom ram b := by
  refine ⟨hb, fun i hi => (h.isFree_iff (Nat.lt_of_lt_of_le hi.2 hb.2.2)).2 ⟨?_, ?_⟩⟩
  · exact Nat.le_trans hb.1 hi.1
  · exact fun ⟨_, hmem, _⟩ => absurd hmem List.not_mem_nil

/-- Room right behind the reserved frames is what a search finds. -/
theorem FirstFit.eq_reserved {count : Nat} {o : Option Nat} (h : p.FirstFit ram count o)
    (hroom : p.HasRoom ram ⟨p.reserved, count⟩) : o = some p.reserved := by
  cases o with
  | none => exact absurd hroom (h _)
  | some s =>
    have hle : p.reserved ≤ s := h.1.1.1
    rcases Nat.eq_or_lt_of_le hle with heq | hlt
    · rw [heq]
    · exact absurd hroom (h.2 _ hlt)

/-! ## A single frame -/

theorem firstFreeFrom_eq_some {i n j : Nat} (h : p.firstFreeFrom ram i n = some j) :
    i ≤ j ∧ j < i + n ∧ p.isFree ram j = true ∧ ∀ l, i ≤ l → l < j → p.isFree ram l = false := by
  induction n generalizing i with
  | zero => simp [firstFreeFrom] at h
  | succ n ih =>
    rw [firstFreeFrom] at h
    split at h
    · next hfree =>
      obtain rfl := Option.some.inj h
      exact ⟨le_rfl, by omega, hfree, fun l hl hlt => absurd hl (by omega)⟩
    · next hbusy =>
      obtain ⟨hle, hlt, hfree, hbefore⟩ := ih h
      refine ⟨by omega, by omega, hfree, fun l hl hlj => ?_⟩
      rcases Nat.eq_or_lt_of_le hl with rfl | hl
      · exact Bool.eq_false_iff.2 hbusy
      · exact hbefore l hl hlj

theorem firstFreeFrom_eq_none {i n : Nat} (h : p.firstFreeFrom ram i n = none) :
    ∀ l, i ≤ l → l < i + n → p.isFree ram l = false := by
  induction n generalizing i with
  | zero => intro l hl hlt; omega
  | succ n ih =>
    rw [firstFreeFrom] at h
    split at h
    · cases h
    · next hbusy =>
      intro l hl hlt
      rcases Nat.eq_or_lt_of_le hl with rfl | hl
      · exact Bool.eq_false_iff.2 hbusy
      · exact ih h l hl (by omega)

theorem hasRoom_one {s : Nat} :
    p.HasRoom ram ⟨s, 1⟩ ↔ p.reserved ≤ s ∧ s < p.total ∧ p.isFree ram s = true := by
  constructor
  · rintro ⟨⟨hs, -, hpast⟩, hfree⟩
    exact ⟨hs, hpast, hfree s ⟨le_rfl, Nat.lt_succ_self s⟩⟩
  · rintro ⟨hs, hlt, hfree⟩
    refine ⟨⟨hs, Nat.one_pos, hlt⟩, fun i hi => ?_⟩
    obtain rfl : i = s := by
      have hlow : s ≤ i := hi.1
      have hhigh : i < s + 1 := hi.2
      omega
    exact hfree

theorem firstFree?_firstFit (p : FramePool) (ram : Ram) : p.FirstFit ram 1 (p.firstFree? ram) := by
  unfold firstFree?
  cases hfind : p.firstFreeFrom ram p.reserved (p.total - p.reserved) with
  | none =>
    intro s hroom
    obtain ⟨hs, hlt, hfree⟩ := hasRoom_one.1 hroom
    have := firstFreeFrom_eq_none hfind s hs (by omega)
    exact absurd hfree (by rw [this]; decide)
  | some s =>
    obtain ⟨hs, hlt, hfree, hbefore⟩ := firstFreeFrom_eq_some hfind
    refine ⟨hasRoom_one.2 ⟨hs, by omega, hfree⟩, fun s' hs' hroom => ?_⟩
    obtain ⟨hres, -, hfree'⟩ := hasRoom_one.1 hroom
    have := hbefore s' hres hs'
    exact absurd hfree' (by rw [this]; decide)

/-! ## A window of frames -/

/-- What the search knows about the window it looks at: the `run` frames from `start` on are free,
and no window starts below. -/
structure Searched (p : FramePool) (ram : Ram) (count start run : Nat) : Prop where
  reserved_le : p.reserved ≤ start
  run_le : run ≤ count
  free : ∀ i, start ≤ i → i < start + run → p.isFree ram i = true
  none_below : ∀ s' < start, ¬ p.HasRoom ram ⟨s', count⟩

theorem Searched.initial (p : FramePool) (ram : Ram) (count : Nat) :
    p.Searched ram count p.reserved 0 where
  reserved_le := le_rfl
  run_le := Nat.zero_le _
  free i hi hlt := absurd hi (by omega)
  none_below s' hs' hroom := absurd hroom.1.1 (Nat.not_le.2 hs')

theorem Searched.next {count start run : Nat} (h : p.Searched ram count start run)
    (hlt : run < count) (hfree : p.isFree ram (start + run) = true) :
    p.Searched ram count start (run + 1) where
  reserved_le := h.reserved_le
  run_le := hlt
  free i hi hlti := by
    rcases Nat.lt_or_ge i (start + run) with hi' | hi'
    · exact h.free i hi hi'
    · obtain rfl : i = start + run := by omega
      exact hfree
  none_below := h.none_below

/-- A window that meets an allocated frame starts over just past it: every window that starts up to
there contains that frame. -/
theorem Searched.restart {count start run : Nat} (h : p.Searched ram count start run)
    (hlt : run < count) (hbusy : p.isFree ram (start + run) = false) :
    p.Searched ram count (start + run + 1) 0 where
  reserved_le := by have := h.reserved_le; omega
  run_le := Nat.zero_le _
  free i hi hlti := absurd hi (by omega)
  none_below s' hs' hroom := by
    rcases Nat.lt_or_ge s' start with hlow | hlow
    · exact h.none_below s' hlow hroom
    · have := hroom.2 (start + run) (Block.mem_mk.2 ⟨by omega, by omega⟩)
      rw [hbusy] at this
      cases this

theorem windowFrom_firstFit {count start run : Nat} {o : Option Nat} (hcount : 0 < count)
    (hs : p.Searched ram count start run) (h : p.windowFrom ram count start run = .ok o)
    (hfits : run = count → start + count ≤ p.total) : p.FirstFit ram count o := by
  fun_induction windowFrom p ram count start run with
  | case1 start run hlt hword hle hfree ih =>
    exact ih (hs.next hlt hfree) h (fun _ => hle)
  | case2 start run hlt hword hle hbusy ih =>
    exact ih (hs.restart hlt (Bool.eq_false_iff.2 hbusy)) h (fun h0 => by omega)
  | case3 start run hlt hword hgt =>
    obtain rfl := Except.ok.inj h
    intro s' hroom
    have hpast : s' + count ≤ p.total := hroom.1.2.2
    exact hs.none_below s' (by omega) hroom
  | case4 => cases h
  | case5 start run hge =>
    have hrun : run = count := Nat.le_antisymm hs.run_le (Nat.not_lt.1 hge)
    rw [if_pos hrun] at h
    obtain rfl := Except.ok.inj h
    refine ⟨⟨⟨hs.reserved_le, hcount, hfits hrun⟩, fun i hi => ?_⟩, hs.none_below⟩
    subst hrun
    exact hs.free i hi.1 hi.2

/-- The end of a later window is computed only when the first one ends in the managed frames, so that
`count` is no more than their number. -/
theorem windowFrom_ok {count start run : Nat} (hpool : p.total + p.total < wordLimit)
    (hstart : start ≤ p.total) (hword : start + count < wordLimit) :
    ∃ o, p.windowFrom ram count start run = .ok o := by
  fun_induction windowFrom p ram count start run with
  | case1 start run hlt hw hle hfree ih => exact ih hstart hword
  | case2 start run hlt hw hle hbusy ih => exact ih (by omega) (by omega)
  | case3 => exact ⟨none, rfl⟩
  | case4 start run hlt hw => exact absurd hword hw
  | case5 => exact ⟨_, rfl⟩

theorem windowFrom_error {count start run : Nat} {cause : Halt}
    (h : p.windowFrom ram count start run = .error cause) : cause = .addOverflow := by
  fun_induction windowFrom p ram count start run with
  | case1 start run hlt hw hle hfree ih => exact ih h
  | case2 start run hlt hw hle hbusy ih => exact ih h
  | case3 => cases h
  | case4 => exact (Except.error.inj h).symm
  | case5 => cases h

/-! ## Both -/

/-- A search that answers has found the lowest place with room. -/
theorem find_firstFit {count : Nat} {o : Option Nat} (hcount : 0 < count)
    (h : p.find ram count = .ok o) : p.FirstFit ram count o := by
  unfold find at h
  split at h
  · next hone =>
    subst hone
    obtain rfl := Except.ok.inj h
    exact firstFree?_firstFit p ram
  · exact windowFrom_firstFit hcount (Searched.initial p ram count) h (fun h0 => by omega)

/-- A search answers where the end of the first window can be computed. -/
theorem find_ok {count : Nat} (hpool : p.total + p.total < wordLimit)
    (hreserved : p.reserved ≤ p.total) (hword : p.reserved + count < wordLimit) :
    ∃ o, p.find ram count = .ok o := by
  unfold find
  split
  · exact ⟨_, rfl⟩
  · exact windowFrom_ok hpool hreserved hword

/-- A search for more than one frame halts where it cannot be computed. -/
theorem find_overflow {count : Nat} (hcount : 1 < count) (hword : wordLimit ≤ p.reserved + count) :
    p.find ram count = .error .addOverflow := by
  unfold find firstWindow?
  rw [if_neg (Nat.ne_of_gt hcount), windowFrom, if_pos (Nat.lt_of_succ_lt hcount),
    if_neg (Nat.not_lt.2 hword)]

/-- A search for a single frame answers. -/
theorem find_one (p : FramePool) (ram : Ram) : p.find ram 1 = .ok (p.firstFree? ram) := rfl

theorem find_error {count : Nat} {cause : Halt} (h : p.find ram count = .error cause) :
    cause = .addOverflow := by
  unfold find at h
  split at h
  · cases h
  · exact windowFrom_error h

end FramePool

end SoftPaging
