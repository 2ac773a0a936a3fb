import Mathlib
import SoftPaging.Proofs.Pool.Boot
import SoftPaging.Proofs.Pool.Holding

/-!
# The pool as a ledger

A client of the pool sees no records. It sees the start of what it was handed and the size it asked
for, and it may give back any address. A `Ledger` is a kernel together with the grants that such a
client holds: what was handed out and has not been taken back.

The ledger is `Faithful` when everything the pool shows is a matter of the grants: the records bit by
bit, the counts, and what becomes of each address that is given back. A ledger that starts with a
pool that was just set up stays faithful over every sequence of requests
(`bootPool_ledger_faithful`), so adjacent blocks never merge, no block splits, and a frame is handed
out again only after its block was taken back.
-/

namespace SoftPaging

/-- Frames that were handed out: the address of the first and their number. -/
structure Grant where
  start : PhysicalAddress
  count : Nat
deriving DecidableEq

namespace Grant

/-- The frames of a grant. -/
def block (g : Grant) : Block := ⟨g.start.number.val, g.count⟩

@[simp] theorem block_count (g : Grant) : g.block.count = g.count := rfl

theorem frameAt_block {g : Grant} (h : g.start.isPageAligned = true) :
    frameAt g.block.first = g.start := frameAt_number h

end Grant

/-- What a client asks of the pool. -/
inductive PoolRequest where
  | allocate (count : Nat)
  | allocateCleared (count : Nat)
  | free (a : PhysicalAddress)

namespace PoolRequest

/-- The request names at least one frame, and the end of a block that large can be computed. -/
def Fits (p : FramePool) : PoolRequest → Prop
  | allocate count | allocateCleared count => 1 ≤ count ∧ p.total + count < wordLimit
  | free _ => True

instance (p : FramePool) : (r : PoolRequest) → Decidable (r.Fits p)
  | allocate count | allocateCleared count =>
    inferInstanceAs (Decidable (1 ≤ count ∧ p.total + count < wordLimit))
  | free _ => inferInstanceAs (Decidable True)

end PoolRequest

/-- A kernel and the grants that its client holds. -/
structure Ledger where
  kernel : Kernel
  live : List Grant

namespace Ledger

/-- The frames of the grants. -/
def blocks (l : Ledger) : List Block := l.live.map Grant.block

/-- The ledger after an answer: a block that was handed out is added. -/
def afterAllocate (l : Ledger) (count : Nat) :
    Outcome Refusal Kernel PhysicalAddress → Option Ledger
  | .done a k => some ⟨k, ⟨a, count⟩ :: l.live⟩
  | .refused _ k => some ⟨k, l.live⟩
  | .halted _ => none

/-- The ledger after an answer: the grant that starts at the address is struck out. -/
def afterFree (l : Ledger) (a : PhysicalAddress) : Outcome Refusal Kernel Nat → Option Ledger
  | .done _ k => some ⟨k, l.live.eraseP (·.start = a)⟩
  | .refused _ k => some ⟨k, l.live⟩
  | .halted _ => none

/-- The ledger after a request, unless the machine halts. -/
def step (l : Ledger) : PoolRequest → Option Ledger
  | .allocate count => l.afterAllocate count ((Op.allocate count).run l.kernel)
  | .allocateCleared count => l.afterAllocate count ((Op.allocateCleared count).run l.kernel)
  | .free a => l.afterFree a ((Op.free a).run l.kernel)

/-- The address is the start of a frame that the pool hands out, and no grant has that frame. -/
def Idle (p : FramePool) (l : Ledger) (a : PhysicalAddress) : Prop :=
  a.isPageAligned = true ∧ p.reserved ≤ a.number.val ∧ a.number.val < p.total ∧
    a.number.val ∉ framesOf l.blocks

/-- Everything the pool shows is a matter of the grants. -/
structure Faithful (p : FramePool) (l : Ledger) : Prop where
  within : ∀ g ∈ l.live, g.block.Within p
  apart : l.blocks.Pairwise Block.Apart
  allocated_iff : ∀ i < p.total,
    (p.record l.kernel.ram i).test .allocated = true ↔ i < p.reserved ∨ i ∈ framesOf l.blocks
  continues_iff : ∀ i < p.total,
    (p.record l.kernel.ram i).test .continues = true ↔ ∃ g ∈ l.live, g.block.Links i
  no_other_bit : ∀ i < p.total, (p.record l.kernel.ram i).bits < 4
  isAllocated_iff : ∀ a : PhysicalAddress, p.isAllocated l.kernel.ram a = true ↔
    a.number.val < p.reserved ∨ a.number.val ∈ framesOf l.blocks
  counts : p.reserved + p.allocatedFrames l.kernel.ram + p.freeFrames l.kernel.ram = p.total
  allocated_eq : p.allocatedFrames l.kernel.ram = (l.live.map Grant.count).sum
  free_done_iff : ∀ a n, (∃ k, (Op.free a).run l.kernel = .done n k) ↔ ⟨a, n⟩ ∈ l.live
  /-- Taking a grant back strikes out just that one. -/
  free_done : ∀ a n k, (Op.free a).run l.kernel = .done n k →
    l.live.Perm (⟨a, n⟩ :: l.live.eraseP (·.start = a)) ∧
      p.Represents k.ram ((l.live.eraseP (·.start = a)).map Grant.block)
  free_doubleFree_iff : ∀ a,
    (Op.free a).run l.kernel = .refused .doubleFree l.kernel ↔ Idle p l a
  free_badAddress_iff : ∀ a,
    (Op.free a).run l.kernel = .refused .badAddress l.kernel ↔ (∀ n, ⟨a, n⟩ ∉ l.live) ∧ ¬ Idle p l a

/-! ## The invariant -/

/-- The pool lends the blocks of the grants, each of which starts where a frame does. -/
structure Sound (p : FramePool) (l : Ledger) : Prop where
  lends : l.kernel.Lends p l.blocks
  aligned : ∀ g ∈ l.live, g.start.isPageAligned = true

namespace Sound

variable {p : FramePool} {l : Ledger} {a : PhysicalAddress} {g : Grant}

theorem block_mem (hg : g ∈ l.live) : g.block ∈ l.blocks := List.mem_map_of_mem hg

/-- Grants that start at the same address are one. -/
theorem eq_of_start_eq (h : l.Sound p) {g g' : Grant} (hg : g ∈ l.live) (hg' : g' ∈ l.live)
    (hstart : g.start = g'.start) : g = g' := by
  have hmem := (h.lends.represents.within _ (block_mem hg)).first_mem
  have hmem' := (h.lends.represents.within _ (block_mem hg')).first_mem
  have hfirst : g'.block.first = g.block.first := by rw [Grant.block, Grant.block, hstart]
  rw [hfirst] at hmem'
  have heq := h.lends.represents.eq_of_mem (block_mem hg) (block_mem hg') hmem hmem'
  obtain ⟨a, n⟩ := g
  obtain ⟨a', n'⟩ := g'
  obtain rfl : a = a' := hstart
  exact congrArg (Grant.mk a) (congrArg Block.count heq)

/-- A live grant is the one that is struck out when its start is given back. -/
theorem perm_eraseP (h : l.Sound p) (hg : g ∈ l.live) :
    l.live.Perm (g :: l.live.eraseP (·.start = g.start)) := by
  obtain ⟨g', l₁, l₂, -, hstart, hsplit, hrest⟩ :=
    List.exists_of_eraseP (p := fun x : Grant => decide (x.start = g.start)) hg (by simp)
  have hmem : g' ∈ l.live := by
    rw [hsplit]
    exact List.mem_append_right _ List.mem_cons_self
  obtain rfl := h.eq_of_start_eq hmem hg (of_decide_eq_true hstart)
  rw [hrest, hsplit]
  exact List.perm_middle

/-- What becomes of an address that is given back: the start of a grant brings the grant back, that
of a free frame is refused as given back twice, and any other is refused as a bad address. -/
theorem free_cases (h : l.Sound p) (a : PhysicalAddress) :
    (∃ g ∈ l.live, g.start = a ∧
      (Op.free a).run l.kernel = .done g.count (l.kernel.takeBack p g.block)) ∨
    ((∀ n, ⟨a, n⟩ ∉ l.live) ∧ Idle p l a ∧
      (Op.free a).run l.kernel = .refused .doubleFree l.kernel) ∨
    ((∀ n, ⟨a, n⟩ ∉ l.live) ∧ ¬ Idle p l a ∧
      (Op.free a).run l.kernel = .refused .badAddress l.kernel) := by
  by_cases hgrant : ∃ n, (⟨a, n⟩ : Grant) ∈ l.live
  · obtain ⟨n, hg⟩ := hgrant
    refine .inl ⟨⟨a, n⟩, hg, rfl, ?_⟩
    have hrun := h.lends.run_free_of_first (block_mem hg)
    rwa [Grant.frameAt_block (h.aligned _ hg)] at hrun
  · have hno : ∀ n, (⟨a, n⟩ : Grant) ∉ l.live := fun n hn => hgrant ⟨n, hn⟩
    by_cases hidle : Idle p l a
    · obtain ⟨haligned, hlow, hhigh, hfree⟩ := hidle
      exact .inr (.inl ⟨hno, ⟨haligned, hlow, hhigh, hfree⟩,
        h.lends.run_free_of_free haligned hlow hhigh hfree⟩)
    · refine .inr (.inr ⟨hno, hidle, ?_⟩)
      by_cases hforeign : a.isPageAligned = false ∨ a.number.val < p.reserved ∨
          p.total ≤ a.number.val
      · exact h.lends.run_free_of_foreign hforeign
      · push Not at hforeign
        obtain ⟨haligned, hlow, hhigh⟩ := hforeign
        have haligned : a.isPageAligned = true := by simpa using haligned
        -- the frame is in a block, but no grant starts at it
        obtain ⟨b, hb, hab⟩ : a.number.val ∈ framesOf l.blocks := by
          by_contra hfree
          exact hidle ⟨haligned, hlow, hhigh, hfree⟩
        obtain ⟨g, hg, rfl⟩ := List.mem_map.1 hb
        refine h.lends.run_free_of_inside hb hab fun hfirst => hno g.count ?_
        have hstart : a = g.start := eq_of_number_eq haligned (h.aligned g hg) hfirst
        rw [hstart]
        exact hg

/-- The invariant says all that faithfulness does. -/
theorem faithful (h : l.Sound p) : l.Faithful p where
  within g hg := h.lends.represents.within _ (block_mem hg)
  apart := h.lends.represents.apart
  allocated_iff := h.lends.represents.allocated_iff
  continues_iff i hi := by
    rw [← FrameRecord.continues, h.lends.represents.continues_iff i hi]
    simp [blocks]
  no_other_bit := h.lends.represents.bits_lt
  isAllocated_iff a := by
    have hreserved := h.lends.sound.reserved_lt
    unfold FramePool.isAllocated
    rw [Bool.and_eq_true, decide_eq_true_eq, FramePool.isFree, Bool.not_not]
    constructor
    · rintro ⟨hlt, hallocated⟩
      exact (h.lends.represents.allocated_iff _ hlt).1 hallocated
    · intro hor
      have hlt : a.number.val < p.total := by
        rcases hor with hlow | hmem
        · exact Nat.lt_trans hlow hreserved
        · exact (h.lends.represents.frame_bounds hmem).2
      exact ⟨hlt, (h.lends.represents.allocated_iff _ hlt).2 hor⟩
  counts := h.lends.represents.count_partition h.lends.sound.reserved_lt.le
  allocated_eq := by
    rw [h.lends.represents.allocatedFrames_eq, frameCount, blocks, List.map_map]
    rfl
  free_done_iff a n := by
    constructor
    · rintro ⟨k, hk⟩
      rcases h.free_cases a with ⟨g, hg, rfl, hrun⟩ | ⟨-, -, hrun⟩ | ⟨-, -, hrun⟩
      · rw [hrun] at hk
        obtain ⟨rfl, -⟩ := Outcome.done.inj hk
        exact hg
      · rw [hrun] at hk
        cases hk
      · rw [hrun] at hk
        cases hk
    · intro hg
      have hrun := h.lends.run_free_of_first (block_mem hg)
      rw [Grant.frameAt_block (h.aligned _ hg)] at hrun
      exact ⟨_, hrun⟩
  free_done a n k hk := by
    rcases h.free_cases a with ⟨g, hg, rfl, hrun⟩ | ⟨-, -, hrun⟩ | ⟨-, -, hrun⟩
    · rw [hrun] at hk
      obtain ⟨rfl, rfl⟩ := Outcome.done.inj hk
      have hperm := h.perm_eraseP hg
      exact ⟨hperm, ((h.lends.perm (hperm.map Grant.block)).takeBack).represents⟩
    · rw [hrun] at hk
      cases hk
    · rw [hrun] at hk
      cases hk
  free_doubleFree_iff a := by
    rcases h.free_cases a with ⟨g, hg, rfl, hrun⟩ | ⟨-, hidle, hrun⟩ | ⟨-, hidle, hrun⟩
    · have hmem := (h.lends.represents.within _ (block_mem hg)).first_mem
      rw [hrun]
      exact iff_of_false (fun hk => by cases hk) fun hidle =>
        hidle.2.2.2 ⟨g.block, block_mem hg, hmem⟩
    · exact iff_of_true hrun hidle
    · rw [hrun]
      exact iff_of_false (fun hk => by cases hk) hidle
  free_badAddress_iff a := by
    rcases h.free_cases a with ⟨g, hg, rfl, hrun⟩ | ⟨-, hidle, hrun⟩ | ⟨hno, hidle, hrun⟩
    · rw [hrun]
      exact iff_of_false (fun hk => by cases hk) fun hor => hor.1 g.count hg
    · rw [hrun]
      exact iff_of_false (fun hk => by cases hk) fun hor => hor.2 hidle
    · exact iff_of_true hrun ⟨hno, hidle⟩

/-! ## What a request keeps -/

/-- A block that was handed out is a grant from then on. -/
theorem grant (h : l.Sound p) {k : Kernel} {s count : Nat} (hlt : s < p.total)
    (hlends : k.Lends p (⟨s, count⟩ :: l.blocks)) :
    Sound p ⟨k, ⟨frameAt s, count⟩ :: l.live⟩ where
  lends := by
    have hblock : (Grant.mk (frameAt s) count).block = ⟨s, count⟩ := by
      rw [Grant.block, number_frameAt (h.lends.sound.frame_lt hlt)]
    change k.Lends p ((Grant.mk (frameAt s) count).block :: l.blocks)
    rw [hblock]
    exact hlends
  aligned := by
    intro g hg
    rcases List.mem_cons.1 hg with rfl | hg
    · exact isPageAligned_frameAt (h.lends.sound.frame_lt hlt)
    · exact h.aligned g hg

/-- A grant that was taken back is none from then on. -/
theorem strike (h : l.Sound p) (hg : g ∈ l.live) :
    Sound p ⟨l.kernel.takeBack p g.block, l.live.eraseP (·.start = g.start)⟩ where
  lends := (h.lends.perm ((h.perm_eraseP hg).map Grant.block)).takeBack
  aligned g' hg' := h.aligned g' (List.mem_of_mem_eraseP hg')

end Sound

/-- The ledger after a request is sound and has the same direct map; the machine halts only where
that does not cover the managed frames. -/
def Keeps (p : FramePool) (l : Ledger) : Option Ledger → Prop
  | some l' => l'.Sound p ∧ l'.kernel.directMap? = l.kernel.directMap?
  | none => ¬ l.kernel.Covers (p.total * pageSize)

section

variable {p : FramePool} {l : Ledger}

/-- However a request for `count` frames ends, the pool lends what it lent before, and besides it the
block that it handed out. The machine halts only where `stuck` is the case. -/
abbrev HandsOut (p : FramePool) (l : Ledger) (count : Nat) (stuck : Prop)
    (out : Outcome Refusal Kernel PhysicalAddress) : Prop :=
  out.Meets
    (fun a k => ∃ s, a = frameAt s ∧ s < p.total ∧ k.Lends p (⟨s, count⟩ :: l.blocks) ∧
      k.directMap? = l.kernel.directMap?)
    (fun _ k => k.Lends p l.blocks ∧ k.directMap? = l.kernel.directMap?)
    fun _ => stuck

theorem Sound.handsOut_allocate {count : Nat} (h : l.Sound p) (hcount : 0 < count) :
    l.HandsOut p count (wordLimit ≤ p.reserved + count) ((Op.allocate count).run l.kernel) := by
  refine (h.lends.allocate hcount).mono ?_ ?_ fun _ hover => hover.2
  · rintro a k ⟨s, ha, hfit, rfl, hlends⟩
    exact ⟨s, ha, hfit.1.1.first_lt, hlends, rfl⟩
  · rintro cause k ⟨-, -, rfl⟩
    exact ⟨h.lends.push _, rfl⟩

theorem Sound.handsOut_allocateCleared {count : Nat} (h : l.Sound p) (hcount : 0 < count) :
    l.HandsOut p count
      (wordLimit ≤ p.reserved + count ∨ ¬ l.kernel.Covers (p.total * pageSize))
      ((Op.allocateCleared count).run l.kernel) := by
  refine (h.lends.allocateCleared hcount).mono ?_ ?_ fun _ => Or.imp_left And.right
  · rintro a k ⟨s, ha, hfit, rfl, hlends⟩
    exact ⟨s, ha, hfit.1.1.first_lt, hlends, rfl⟩
  · rintro cause k ⟨-, -, rfl⟩
    exact ⟨h.lends.push _, rfl⟩

theorem afterAllocate_keeps {count : Nat} {stuck : Prop}
    {o : Outcome Refusal Kernel PhysicalAddress} (h : l.Sound p)
    (ho : l.HandsOut p count stuck o)
    (hstuck : stuck → ¬ l.kernel.Covers (p.total * pageSize)) :
    l.Keeps p (l.afterAllocate count o) := by
  cases ho with
  | done ho =>
    obtain ⟨s, rfl, hlt, hlends, hmap⟩ := ho
    exact ⟨h.grant hlt hlends, hmap⟩
  | refused ho => exact ⟨⟨ho.1, h.aligned⟩, ho.2⟩
  | halted ho => exact hstuck ho

/-- One request keeps a ledger sound. -/
theorem Sound.step (h : l.Sound p) {r : PoolRequest} (hr : r.Fits p) : l.Keeps p (l.step r) := by
  have hreserved := h.lends.sound.reserved_lt
  cases r with
  | allocate count =>
    obtain ⟨hcount, hword⟩ := hr
    refine afterAllocate_keeps h (h.handsOut_allocate hcount) fun hover => ?_
    exact absurd hword (by omega)
  | allocateCleared count =>
    obtain ⟨hcount, hword⟩ := hr
    refine afterAllocate_keeps h (h.handsOut_allocateCleared hcount) fun hstuck => ?_
    rcases hstuck with hover | hcovers
    · exact absurd hword (by omega)
    · exact hcovers
  | free a =>
    rcases h.free_cases a with ⟨g, hg, rfl, hrun⟩ | ⟨-, -, hrun⟩ | ⟨-, -, hrun⟩
    · rw [Ledger.step, hrun]
      exact ⟨h.strike hg, rfl⟩
    · rw [Ledger.step, hrun]
      exact ⟨h, rfl⟩
    · rw [Ledger.step, hrun]
      exact ⟨h, rfl⟩

theorem Sound.next {l' : Ledger} (h : l.Sound p) {r : PoolRequest} (hr : r.Fits p)
    (hl : l.step r = some l') : l'.Sound p ∧ l'.kernel.directMap? = l.kernel.directMap? := by
  have hkeeps := h.step hr
  rwa [hl] at hkeeps

/-- The ledger after a sequence of requests, unless the machine halts. -/
def run (l : Ledger) (requests : List PoolRequest) : Option Ledger :=
  requests.foldlM step l

theorem run_cons (l : Ledger) (r : PoolRequest) (requests : List PoolRequest) :
    l.run (r :: requests) = (l.step r).bind fun l' => l'.run requests := List.foldlM_cons

/-- A sequence of requests keeps a ledger sound. -/
theorem Sound.run (h : l.Sound p) {requests : List PoolRequest}
    (hfits : ∀ r ∈ requests, r.Fits p) : l.Keeps p (l.run requests) := by
  induction requests generalizing l with
  | nil => exact ⟨h, rfl⟩
  | cons r requests ih =>
    obtain ⟨hr, hrest⟩ := List.forall_mem_cons.1 hfits
    rw [run_cons]
    cases hnext : l.step r with
    | none =>
      have hstuck := h.step hr
      rw [hnext] at hstuck
      exact hstuck
    | some l' =>
      obtain ⟨hsound, hmap⟩ := h.next hr hnext
      have hrun := ih hsound hrest
      change l.Keeps p (l'.run requests)
      cases hlast : l'.run requests with
      | none =>
        rw [hlast] at hrun
        exact fun hcovers => hrun (hcovers.congr hmap)
      | some l'' =>
        rw [hlast] at hrun
        exact ⟨hrun.1, hrun.2.trans hmap⟩

/-- A client that holds nothing is handed the frames right behind the reserved ones. -/
theorem afterAllocate_fresh {count : Nat} {o : Outcome Refusal Kernel PhysicalAddress}
    (h : l.Sound p) (hlive : l.live = []) (hwithin : Block.Within ⟨p.reserved, count⟩ p)
    (ho : o.Meets (fun a _ => ∃ s, a = frameAt s ∧ p.FirstFit l.kernel.ram count (some s))
      (fun _ _ => p.FirstFit l.kernel.ram count none) never) :
    ∃ k, l.afterAllocate count o = some ⟨k, [⟨frameAt p.reserved, count⟩]⟩ := by
  have hrepresents := h.lends.represents
  rw [blocks, hlive, List.map_nil] at hrepresents
  have hroom := hrepresents.hasRoom_of_nil hwithin
  cases ho with
  | done hdone =>
    obtain ⟨s, rfl, hfirst⟩ := hdone
    obtain rfl := Option.some.inj (hfirst.eq_reserved hroom)
    exact ⟨_, by rw [afterAllocate, hlive]⟩
  | refused hnone => exact absurd hroom (hnone _)
  | halted hfalse => exact hfalse.elim

theorem Sound.step_allocate_fresh {count : Nat} (h : l.Sound p) (hlive : l.live = [])
    (hwithin : Block.Within ⟨p.reserved, count⟩ p) :
    ∃ k, l.step (.allocate count) = some ⟨k, [⟨frameAt p.reserved, count⟩]⟩ := by
  have hcount : 0 < count := hwithin.2.1
  have hpast : p.reserved + count ≤ p.total := hwithin.2.2
  have htotal := h.lends.sound.twice_total_lt
  refine afterAllocate_fresh h hlive hwithin ((h.lends.allocate hcount).mono ?_ ?_ ?_)
  · exact fun a k ⟨s, ha, hfirst, _⟩ => ⟨s, ha, hfirst⟩
  · exact fun _ _ hnone => hnone.2.1
  · rintro _ ⟨-, hover⟩
    omega

theorem Sound.step_allocateCleared_fresh {count : Nat} (h : l.Sound p) (hlive : l.live = [])
    (hwithin : Block.Within ⟨p.reserved, count⟩ p) (hcovers : l.kernel.Covers (p.total * pageSize)) :
    ∃ k, l.step (.allocateCleared count) = some ⟨k, [⟨frameAt p.reserved, count⟩]⟩ := by
  have hcount : 0 < count := hwithin.2.1
  have hpast : p.reserved + count ≤ p.total := hwithin.2.2
  have htotal := h.lends.sound.twice_total_lt
  refine afterAllocate_fresh h hlive hwithin ((h.lends.allocateCleared hcount).mono ?_ ?_ ?_)
  · exact fun a k ⟨s, ha, hfirst, _⟩ => ⟨s, ha, hfirst⟩
  · exact fun _ _ hnone => hnone.2.1
  · rintro _ (⟨-, hover⟩ | hstuck)
    · omega
    · exact hstuck hcovers

end

/-- A client of a pool that was just set up, which was handed nothing yet. -/
def start (k : Kernel) : Ledger := ⟨k, []⟩

end Ledger

/-! ## The ledger of a pool that was set up -/

theorem Ledger.sound_start {k₀ k : Kernel} {p : FramePool} {ramSize : Nat}
    {firstFree : PhysicalAddress} (hboot : (Op.bootPool ramSize firstFree).run k₀ = .done p k)
    (hram : p.records.val + p.total ≤ k₀.ram.size) : (Ledger.start k).Sound p where
  lends := bootPool_lends hboot hram
  aligned _ hg := absurd hg List.not_mem_nil

/-- RAM of whole pages, with more of them than its records take, can be set up. -/
theorem exists_bootPool {ramSize : Nat} (hsize : ramSize % pageSize = 0)
    (hroom : (FramePool.layout ramSize 0).reserved < (FramePool.layout ramSize 0).total) :
    ∃ k, (Op.bootPool ramSize 0).run ⟨Ram.zeroed ramSize, some (.window 0 ramSize), none, #[]⟩ =
        .done (.layout ramSize 0) k ∧
      (FramePool.layout ramSize 0).records.val + (FramePool.layout ramSize 0).total ≤
        (Ram.zeroed ramSize).size ∧
        k.Covers ((FramePool.layout ramSize 0).total * pageSize) := by
  have htotal : (FramePool.layout ramSize 0).total * pageSize ≤ ramSize :=
    Nat.le_trans (Nat.div_mul_le_self _ _) (Nat.min_le_left _ _)
  have hpos : 0 < ramSize := by
    simp only [pageSize] at htotal
    omega
  have hcovers : (DirectMap.window 0 ramSize).Covers ramSize := DirectMap.covers_window 0 le_rfl
  have hmap : (⟨Ram.zeroed ramSize, some (.window 0 ramSize), none, #[]⟩ : Kernel).Covers ramSize :=
    ⟨_, rfl, hcovers⟩
  have hboot := run_bootPool rfl hsize rfl hroom
    (Op.run_reachFrame_of_covers (hmap.congr (Kernel.directMap?_announce _ _)) hpos)
  refine ⟨_, hboot, ?_, ?_⟩
  · rw [Ram.size_zeroed]
    change 0 + (FramePool.layout ramSize 0).total ≤ ramSize
    simp only [pageSize] at htotal
    omega
  · exact ⟨.window 0 ramSize, Kernel.directMap?_announce _ _, DirectMap.covers_window 0 htotal⟩

/-- Whatever a client asks of a pool that was set up with its records in RAM, and in whatever order,
the pool is faithful to the grants it is left with; and where the direct map covers the managed
frames, the machine never halts on the way. -/
theorem bootPool_ledger_faithful {k₀ k : Kernel} {p : FramePool} {ramSize : Nat}
    {firstFree : PhysicalAddress} (hboot : (Op.bootPool ramSize firstFree).run k₀ = .done p k)
    (hram : p.records.val + p.total ≤ k₀.ram.size) (requests : List PoolRequest)
    (hfits : ∀ r ∈ requests, r.Fits p) :
    (∀ l, (Ledger.start k).run requests = some l → l.Faithful p) ∧
      (k.Covers (p.total * pageSize) → ∃ l, (Ledger.start k).run requests = some l) := by
  have hrun := (Ledger.sound_start hboot hram).run hfits
  constructor
  · intro l hl
    rw [hl] at hrun
    exact hrun.1.faithful
  · intro hcovers
    cases hl : (Ledger.start k).run requests with
    | none =>
      rw [hl] at hrun
      exact absurd hcovers hrun
    | some l => exact ⟨l, rfl⟩

/-- Three pages of RAM, of which the first holds the records: the two others are handed out at once,
an address inside the block is refused, and its start is taken back only once. The first of its frames
is handed out again then. -/
theorem three_pages_ledger_faithful :
    ∃ (k : Kernel) (p : FramePool) (l₁ l₂ l : Ledger),
      (Op.bootPool 12288 0).run ⟨Ram.zeroed 12288, some (.window 0 12288), none, #[]⟩ = .done p k ∧
        (Ledger.start k).run [.allocate 2] = some l₁ ∧ l₁.live = [⟨frameAt 1, 2⟩] ∧
          (Op.free (frameAt 2)).run l₁.kernel = .refused .badAddress l₁.kernel ∧
        (Ledger.start k).run [.allocate 2, .free (frameAt 2), .free (frameAt 1)] = some l₂ ∧
          l₂.live = [] ∧ (Op.free (frameAt 1)).run l₂.kernel = .refused .doubleFree l₂.kernel ∧
        (Ledger.start k).run [.allocate 2, .free (frameAt 2), .free (frameAt 1), .free (frameAt 1),
          .allocateCleared 1] = some l ∧ l.live = [⟨frameAt 1, 1⟩] ∧ l.Faithful p := by
  obtain ⟨k, hboot, hram, hcovers⟩ := exists_bootPool (show 12288 % pageSize = 0 from rfl) (by decide)
  have hsound := Ledger.sound_start hboot hram
  -- both frames are handed out
  obtain ⟨k₁, hstep₁⟩ : ∃ k₁, (Ledger.start k).step (.allocate 2) =
      some ⟨k₁, [⟨frameAt 1, 2⟩]⟩ := hsound.step_allocate_fresh rfl (by decide)
  obtain ⟨hsound₁, hmap₁⟩ := hsound.next (by decide) hstep₁
  -- the second one is inside the block, whose start is the first one
  have hinside : (Op.free (frameAt 2)).run k₁ = .refused .badAddress k₁ := by
    refine (hsound₁.faithful.free_badAddress_iff _).2 ⟨fun n hn => ?_, fun hidle => ?_⟩
    · have hstart : frameAt 2 = frameAt 1 := congrArg Grant.start (List.mem_singleton.1 hn)
      exact absurd hstart (by decide)
    · exact hidle.2.2.2 ⟨_, List.mem_singleton_self _, by decide⟩
  have hstep₂ : Ledger.step ⟨k₁, [⟨frameAt 1, 2⟩]⟩ (.free (frameAt 2)) = some ⟨k₁, [⟨frameAt 1, 2⟩]⟩ :=
    congrArg (Ledger.afterFree _ (frameAt 2)) hinside
  obtain ⟨k₂, hback⟩ := (hsound₁.faithful.free_done_iff (frameAt 1) 2).2 (List.mem_singleton_self _)
  have hstep₃ : Ledger.step ⟨k₁, [⟨frameAt 1, 2⟩]⟩ (.free (frameAt 1)) = some ⟨k₂, []⟩ :=
    congrArg (Ledger.afterFree _ (frameAt 1)) hback
  obtain ⟨hsound₂, hmap₂⟩ := hsound₁.next (r := .free (frameAt 1)) trivial hstep₃
  -- both are free again
  have hagain : (Op.free (frameAt 1)).run k₂ = .refused .doubleFree k₂ :=
    (hsound₂.faithful.free_doubleFree_iff _).2
      ⟨by decide, by decide, by decide, fun ⟨_, hmem, _⟩ => absurd hmem List.not_mem_nil⟩
  have hstep₄ : Ledger.step ⟨k₂, []⟩ (.free (frameAt 1)) = some ⟨k₂, []⟩ :=
    congrArg (Ledger.afterFree _ (frameAt 1)) hagain
  obtain ⟨k₃, hstep₅⟩ : ∃ k₃, Ledger.step ⟨k₂, []⟩ (.allocateCleared 1) =
      some ⟨k₃, [⟨frameAt 1, 1⟩]⟩ :=
    hsound₂.step_allocateCleared_fresh rfl (by decide) ((hcovers.congr hmap₁).congr hmap₂)
  have hrun : (Ledger.start k).run [.allocate 2, .free (frameAt 2), .free (frameAt 1),
      .free (frameAt 1), .allocateCleared 1] = some ⟨k₃, [⟨frameAt 1, 1⟩]⟩ := by
    simp only [Ledger.run_cons, hstep₁, hstep₂, hstep₃, hstep₄, hstep₅, Option.bind_some]
    rfl
  refine ⟨k, _, ⟨k₁, [⟨frameAt 1, 2⟩]⟩, ⟨k₂, []⟩, _, hboot, ?_, rfl, hinside, ?_, rfl, hagain, hrun,
    rfl, (bootPool_ledger_faithful hboot hram _ (by decide)).1 _ hrun⟩
  · rw [Ledger.run_cons, hstep₁]
    rfl
  · simp only [Ledger.run_cons, hstep₁, hstep₂, hstep₃, Option.bind_some]
    rfl

/-! ## The ledgers that are reached -/

namespace Ledger

/-- What a client of the pool `p` may be left with. It asks for anything, also for more frames than
there are, as long as the machine answers; and between two requests memory that holds no record may
change in any way. -/
inductive Reachable (p : FramePool) : Ledger → Prop where
  | boot {k₀ k : Kernel} {ramSize : Nat} {firstFree : PhysicalAddress}
      (hboot : (Op.bootPool ramSize firstFree).run k₀ = .done p k)
      (hram : p.records.val + p.total ≤ k₀.ram.size) : Reachable p (start k)
  | request {l l' : Ledger} (h : Reachable p l) (r : PoolRequest) (hstep : l.step r = some l') :
      Reachable p l'
  | elsewhere {l : Ledger} {k : Kernel} (h : Reachable p l) (hpool : k.pool? = l.kernel.pool?)
      (hmap : k.directMap? = l.kernel.directMap?) (hsize : k.ram.size = l.kernel.ram.size)
      (hsame : ∀ j, p.IsRecord j → k.ram.byte j = l.kernel.ram.byte j) : Reachable p ⟨k, l.live⟩

variable {p : FramePool} {l l' : Ledger}

/-- An answer to a request for frames, however many, leaves a sound ledger. -/
theorem Sound.afterAllocate (h : l.Sound p) {count : Nat} {stuck : Prop}
    {o : Outcome Refusal Kernel PhysicalAddress} (hl : l.afterAllocate count o = some l')
    (ho : l.HandsOut p count stuck o) : l'.Sound p := by
  cases ho with
  | done ho =>
    obtain ⟨s, rfl, hlt, hlends, -⟩ := ho
    obtain rfl := Option.some.inj hl
    exact h.grant hlt hlends
  | refused ho =>
    obtain rfl := Option.some.inj hl
    exact ⟨ho.1, h.aligned⟩
  | halted => cases hl

/-- A request that is answered leaves a sound ledger. -/
theorem Sound.of_step (h : l.Sound p) {r : PoolRequest} (hl : l.step r = some l') :
    l'.Sound p := by
  cases r with
  | allocate count =>
    rcases Nat.eq_zero_or_pos count with rfl | hcount
    · rw [Ledger.step, run_allocate_zero h.lends.toHosts] at hl
      cases hl
    · exact h.afterAllocate hl (h.handsOut_allocate hcount)
  | allocateCleared count =>
    rcases Nat.eq_zero_or_pos count with rfl | hcount
    · rw [Ledger.step, run_allocateCleared_zero h.lends.toHosts] at hl
      cases hl
    · exact h.afterAllocate hl (h.handsOut_allocateCleared hcount)
  | free a =>
    exact (h.next (r := .free a) trivial hl).1

/-- Whatever a client was answered, its ledger is sound. -/
theorem Reachable.sound (h : Reachable p l) : l.Sound p := by
  induction h with
  | boot hboot hram => exact sound_start hboot hram
  | request _ r hstep ih => exact ih.of_step hstep
  | @elsewhere l k _ hpool _ hsize hsame ih =>
    refine ⟨⟨⟨hpool.trans ih.lends.installed, ih.lends.sound, ?_⟩, ?_⟩, ih.aligned⟩
    · unfold FramePool.FitsIn
      rw [hsize]
      exact ih.lends.fits
    · apply ih.lends.represents.congr
      intro i hi
      unfold FramePool.record
      rw [hsame _ ⟨Nat.le_add_right _ _, Nat.add_lt_add_left hi _⟩]

/-- RAM of whole pages, with more of them than its records take, starts a client off. -/
theorem exists_reachable {ramSize : Nat} (hsize : ramSize % pageSize = 0)
    (hroom : (FramePool.layout ramSize 0).reserved < (FramePool.layout ramSize 0).total) :
    ∃ k, (Op.bootPool ramSize 0).run ⟨Ram.zeroed ramSize, some (.window 0 ramSize), none, #[]⟩ =
        .done (.layout ramSize 0) k ∧
      Reachable (.layout ramSize 0) (start k) ∧
        k.Covers ((FramePool.layout ramSize 0).total * pageSize) := by
  obtain ⟨k, hboot, hram, hcovers⟩ := exists_bootPool hsize hroom
  exact ⟨k, hboot, .boot hboot hram, hcovers⟩

end Ledger

end SoftPaging
