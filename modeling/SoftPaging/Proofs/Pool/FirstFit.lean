import Mathlib
import SoftPaging.Proofs.Pool.Ledger

/-!
# Exact first fit

What an allocation does at every state that a client of the pool is left with
(`reachable_serves`). If there is room for the frames anywhere, the lowest such place is handed out:
its records are marked and linked, and nothing else in RAM changes. If there is none, the request is
refused and RAM stays as it is. This holds for a single frame and for a run of frames, which are
searched for in two ways; where both apply they find the same (`Sound.find_eq_firstWindow?`).

The searches are written with a total view of RAM, in which a record past the last one reads as
whatever lies there. That they never look there is said by searches that check the number of each
frame before they look at its record: they find the same and never halt on a check
(`checkedFind_eq`). Nor does marking a run, which checks besides that each of its frames is free
(`checkedTakeRun_eq`).
-/

namespace SoftPaging

namespace FramePool

variable {p : FramePool} {ram : Ram} {i n s count start run : Nat} {b : Block}

/-! ## Looking only at records that are there -/

/-- The record of frame `i`; halts when the pool has no such frame. -/
def checkedRecord (p : FramePool) (ram : Ram) (i : Nat) : Except Halt FrameRecord :=
  (checkedIndex p.total i).map fun frame => p.record ram frame

@[simp] theorem checkedRecord_of_lt (h : i < p.total) :
    p.checkedRecord ram i = .ok (p.record ram i) := by
  unfold checkedRecord
  rw [checkedIndex_of_lt h]
  rfl

/-- The scan for a free frame, which halts when it looks past the last record. -/
def checkedFreeFrom (p : FramePool) (ram : Ram) (i : Nat) : Nat → Except Halt (Option Nat)
  | 0 => .ok none
  | n + 1 =>
    (p.checkedRecord ram i).bind fun r =>
      if r.isAllocated then p.checkedFreeFrom ram (i + 1) n else .ok (some i)

theorem checkedFreeFrom_eq (h : i + n ≤ p.total) :
    p.checkedFreeFrom ram i n = .ok (p.firstFreeFrom ram i n) := by
  induction n generalizing i with
  | zero => rfl
  | succ n ih =>
    have hrest := ih (i := i + 1) (by omega)
    rw [checkedFreeFrom, checkedRecord_of_lt (by omega), firstFreeFrom, isFree]
    cases hi : (p.record ram i).isAllocated with
    | true => simpa [Except.bind, hi] using hrest
    | false => simp [Except.bind, hi]

/-- The search for a window of free frames, which halts when it looks past the last record. -/
def checkedWindowFrom (p : FramePool) (ram : Ram) (count start run : Nat) :
    Except Halt (Option Nat) :=
  if run < count then
    if start + count < wordLimit then
      if start + count ≤ p.total then
        (p.checkedRecord ram (start + run)).bind fun r =>
          if r.isAllocated then p.checkedWindowFrom ram count (start + run + 1) 0
          else p.checkedWindowFrom ram count start (run + 1)
      else .ok none
    else .error .addOverflow
  else .ok (if run = count then some start else none)
termination_by p.total - (start + run)

/-- A window that is looked at ends below the last record, and so does every frame in it. -/
theorem checkedWindowFrom_eq :
    p.checkedWindowFrom ram count start run = p.windowFrom ram count start run := by
  fun_induction windowFrom p ram count start run with
  | case1 start run hlt hword hle hfree ih =>
    have hbusy : (p.record ram (start + run)).isAllocated = false := by simpa [isFree] using hfree
    rw [checkedWindowFrom, if_pos hlt, if_pos hword, if_pos hle, checkedRecord_of_lt (by omega)]
    simp [Except.bind, hbusy, ih]
  | case2 start run hlt hword hle hfree ih =>
    have hbusy : (p.record ram (start + run)).isAllocated = true := by simpa [isFree] using hfree
    rw [checkedWindowFrom, if_pos hlt, if_pos hword, if_pos hle, checkedRecord_of_lt (by omega)]
    simp [Except.bind, hbusy, ih]
  | case3 start run hlt hword hgt =>
    rw [checkedWindowFrom, if_pos hlt, if_pos hword, if_neg hgt]
  | case4 start run hlt hword => rw [checkedWindowFrom, if_pos hlt, if_neg hword]
  | case5 start run hge => rw [checkedWindowFrom, if_neg hge]

/-- Both searches, with every look checked. -/
def checkedFind (p : FramePool) (ram : Ram) (count : Nat) : Except Halt (Option Nat) :=
  if count = 1 then p.checkedFreeFrom ram p.reserved (p.total - p.reserved)
  else p.checkedWindowFrom ram count p.reserved 0

theorem checkedFind_eq (h : p.reserved ≤ p.total) : p.checkedFind ram count = p.find ram count := by
  unfold checkedFind find firstFree? firstWindow?
  rw [checkedFreeFrom_eq (by omega), checkedWindowFrom_eq]

/-- Marks a run of frames. Halts when it comes to one that the pool does not have, or that is not
free. -/
def checkedTakeRun (p : FramePool) (ram : Ram) (i : Nat) : Nat → Except Halt Ram
  | 0 => .ok ram
  | n + 1 => do
    let r ← p.checkedRecord ram i
    require (!r.isAllocated) .frameTaken
    let taken := r.set .allocated
    let linked := if n = 0 then taken.unset .continues else taken.set .continues
    p.checkedTakeRun (p.setRecord ram i linked) (i + 1) n

theorem checkedTakeRun_eq (h : i + n ≤ p.total)
    (hfree : ∀ j, i ≤ j → j < i + n → p.isFree ram j = true) :
    p.checkedTakeRun ram i n = .ok (p.takeRun ram i n) := by
  induction n generalizing ram i with
  | zero => rfl
  | succ n ih =>
    have hhead : (!(p.record ram i).isAllocated) = true := hfree i le_rfl (by omega)
    rw [checkedTakeRun, takeRun]
    refine bind_eq_ok_iff.2 ⟨_, checkedRecord_of_lt (by omega), bind_eq_ok_iff.2 ?_⟩
    -- marking a frame leaves those after it free
    refine ⟨(), require_eq_ok_iff.2 hhead, ih (by omega) fun j hlow hhigh => ?_⟩
    rw [isFree, record_setRecord_of_ne p _ (by omega)]
    exact hfree j (by omega) (by omega)

/-! ## One search -/

theorem firstFit_some_iff :
    p.FirstFit ram count (some s) ↔ IsLeast {s | p.HasRoom ram ⟨s, count⟩} s := by
  constructor
  · intro h
    refine ⟨h.1, fun s' hs' => ?_⟩
    by_contra hlt
    exact h.2 s' (Nat.not_le.1 hlt) hs'
  · intro h
    exact ⟨h.1, fun s' hlt hs' => absurd (h.2 hs') (Nat.not_le.2 hlt)⟩

theorem FirstFit.unique {o o' : Option Nat} (h : p.FirstFit ram count o)
    (h' : p.FirstFit ram count o') : o = o' := by
  cases o with
  | none =>
    cases o' with
    | none => rfl
    | some s' => exact absurd h'.1 (h s')
  | some s =>
    cases o' with
    | none => exact absurd h.1 (h' s)
    | some s' => rw [(firstFit_some_iff.1 h).unique (firstFit_some_iff.1 h')]

/-- The search for a window finds what the scan does when the window is a single frame. -/
theorem Sound.find_eq_firstWindow? (h : p.Sound) (count : Nat) :
    p.find ram count = p.firstWindow? ram count := by
  unfold find
  split
  · next hone =>
    subst hone
    have hreserved := h.reserved_lt
    have htotal := h.twice_total_lt
    obtain ⟨o, ho⟩ : ∃ o, p.windowFrom ram 1 p.reserved 0 = .ok o :=
      windowFrom_ok htotal hreserved.le (by omega)
    have hwindow := windowFrom_firstFit Nat.one_pos (Searched.initial p ram 1) ho (by omega)
    rw [firstWindow?, ho, hwindow.unique (firstFree?_firstFit p ram)]
  · rfl

/-! ## What is written -/

/-- Of RAM only the records of the block have changed: they are marked allocated, and each but the
last is linked to the next. -/
structure Takes (p : FramePool) (ram ram' : Ram) (b : Block) : Prop where
  allocated : ∀ i ∈ b, (p.record ram' i).isAllocated = true
  continues_iff : ∀ i ∈ b, (p.record ram' i).continues = true ↔ i + 1 < b.past
  no_other_bit : ∀ i ∈ b, (p.record ram' i).bits < 4
  record_eq : ∀ i, i ∉ b → p.record ram' i = p.record ram i
  byte_eq : ∀ j, ¬ p.IsRecord j → ram'.byte j = ram.byte j
  size_eq : ram'.size = ram.size

theorem takes_takeRun (hfits : p.FitsIn ram) (hpast : b.past ≤ p.total)
    (hbits : ∀ i < p.total, (p.record ram i).bits < 4) :
    p.Takes ram (p.takeRun ram b.first b.count) b := by
  unfold FitsIn at hfits
  unfold Block.past at hpast
  have hrecord := record_takeRun p ram (i := b.first) (n := b.count) (by omega)
  have htaken {i : Nat} (hi : i ∈ b) : p.record (p.takeRun ram b.first b.count) i =
      takenRecord (p.record ram i) i b.past := (hrecord i).trans (if_pos hi)
  constructor
  · intro i hi
    rw [htaken hi]
    exact isAllocated_takenRecord _ _ _
  · intro i hi
    have hlt : i < b.past := hi.2
    rw [htaken hi, continues_takenRecord]
    omega
  · intro i hi
    have hlt : i < b.first + b.count := hi.2
    rw [htaken hi]
    exact bits_takenRecord_lt (hbits i (by omega)) _ _
  · intro i hi
    exact (hrecord i).trans (if_neg hi)
  · intro j hj
    unfold IsRecord at hj
    exact byte_takeRun_of_not_record p ram (by omega)
  · exact size_takeRun _ _ _ _

end FramePool

/-! ## At every state that is reached -/

namespace Ledger

variable {p : FramePool} {l : Ledger} {count : Nat}

/-- How a request for `count` frames is served. -/
structure Serves (p : FramePool) (l : Ledger) (count : Nat) : Prop where
  /-- The lowest place with room is handed out, and nothing but its records changes. -/
  done : (∃ s, p.HasRoom l.kernel.ram ⟨s, count⟩) →
    ∃ s k, IsLeast {s | p.HasRoom l.kernel.ram ⟨s, count⟩} s ∧ (frameAt s).val = s * pageSize ∧
      (Op.allocate count).run l.kernel = .done (frameAt s) k ∧
      p.Takes l.kernel.ram k.ram ⟨s, count⟩
  /-- Without room the request is refused, and nothing changes but the log. -/
  refused : (∀ s, ¬ p.HasRoom l.kernel.ram ⟨s, count⟩) →
    (Op.allocate count).run l.kernel = .refused .outOfMemory (l.kernel.push (.noRun count))
  /-- The search for a window of frames serves as well for a single one. -/
  window : p.find l.kernel.ram count = p.firstWindow? l.kernel.ram count
  /-- The search looks at no record past the last. -/
  looks : p.checkedFind l.kernel.ram count = p.find l.kernel.ram count
  /-- What was found is marked without going past the last record, and all of it was free. -/
  takes : ∀ s, p.find l.kernel.ram count = .ok (some s) →
    p.checkedTakeRun l.kernel.ram s count = .ok (p.takeRun l.kernel.ram s count)

/-- An allocation is exact first fit, whatever was allocated and freed before. -/
theorem reachable_serves (h : l.Reachable p) (hcount : 1 ≤ count)
    (hword : p.total + count < wordLimit) : l.Serves p count := by
  have hlends := h.sound.lends
  have hreserved := hlends.sound.reserved_lt
  have hrun := run_allocate hlends.toHosts hcount
  obtain ⟨o, ho⟩ : ∃ o, p.find l.kernel.ram count = .ok o := hlends.sound.find_ok (by omega)
  have hfit := FramePool.find_firstFit hcount ho
  rw [ho] at hrun
  constructor
  · intro ⟨s', hroom⟩
    cases o with
    | none => exact absurd hroom (hfit s')
    | some s =>
      have hpast : s + count ≤ p.total := hfit.1.1.2.2
      have hval := val_frameAt (hlends.sound.frame_lt (show s < p.total by omega))
      have htakes := FramePool.takes_takeRun (b := ⟨s, count⟩) hlends.fits hpast
        hlends.represents.bits_lt
      exact ⟨s, _, FramePool.firstFit_some_iff.1 hfit, hval, hrun, htakes⟩
  · intro hnone
    cases o with
    | none => exact hrun
    | some s => exact absurd hfit.1 (hnone s)
  · exact hlends.sound.find_eq_firstWindow? count
  · exact FramePool.checkedFind_eq hreserved.le
  · intro s hs
    obtain ⟨hwithin, hfree⟩ := (FramePool.find_firstFit hcount hs).1
    exact FramePool.checkedTakeRun_eq hwithin.2.2 fun j hlow hhigh => hfree j ⟨hlow, hhigh⟩

/-- Three pages of RAM, of which the first holds the records: a run of two frames fits up to the
last one. -/
theorem three_pages_serves : ∃ k,
    (Op.bootPool 12288 0).run ⟨Ram.zeroed 12288, some (.window 0 12288), none, #[]⟩ =
        .done (.layout 12288 0) k ∧
      IsLeast {s | (FramePool.layout 12288 0).HasRoom k.ram ⟨s, 2⟩} 1 ∧
      (start k).Serves (.layout 12288 0) 2 := by
  have hsize : 12288 % pageSize = 0 := rfl
  obtain ⟨k, hboot, hreachable, -⟩ := exists_reachable hsize (by decide)
  have hlends := hreachable.sound.lends
  exact ⟨k, hboot, ⟨hlends.represents.hasRoom_of_nil (by decide), fun s hs => hs.1.1⟩,
    reachable_serves hreachable (by decide) (by decide)⟩

end Ledger

end SoftPaging
