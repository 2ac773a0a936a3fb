import Mathlib
import SoftPaging.Proofs.Pool.Serving

/-!
# The log as an audit of the pool

Of all events two move frames: a block is handed out, or a block is taken back. `FramePool.replay`
tells the live blocks from a log alone, and comes to nothing when an event could not have happened:
when frames are handed out that are not free, or when what is taken back is not a live block.

`Kernel.Accounts p k k'` says how a kernel can come from another: by writing to the log an event
that moves no frame, by writing to memory that holds no record, by lending a block, and by taking a
live block back. The last two change the records and write one event, and nothing else changes a
record. So what was written to the log replays to the blocks that are live in the end
(`Accounts.replay`).

An operation is audited when however it ends it only does such steps. The rules follow the ways of
composing transitions. `FramePool.Audits` is about an operation on any kernel that lends anything;
`Kernel.Audited` is about one run, of which more may be known.
-/

namespace SoftPaging

open Outcome

variable {p : FramePool} {ram : Ram} {live live' : List Block} {b : Block} {e : Event}
  {es : List Event}

/-! ## Live blocks -/

namespace FramePool.Represents

theorem nodup (h : p.Represents ram live) : live.Nodup := by
  refine h.apart.imp_of_mem fun {c d} hc _ hapart heq => ?_
  have hpos := (h.within c hc).2.1
  subst heq
  unfold Block.Apart Block.past at hapart
  omega

/-- The records tell where a live block starts and where it ends. -/
theorem mem_of_mem (h : p.Represents ram live) (h' : p.Represents ram live') (hb : b ∈ live) :
    b ∈ live' := by
  obtain ⟨hlow, hcount, hpast⟩ := h.within b hb
  unfold Block.past at hpast
  have hself := (h.within b hb).first_mem
  have hallocated := (h.allocated_iff b.first (by omega)).2 (.inr ⟨b, hb, hself⟩)
  rcases (h'.allocated_iff b.first (by omega)).1 hallocated with hreserved | ⟨c, hc, hmem⟩
  · omega
  have hstart : c.first = b.first := by
    by_contra hne
    have hlink : c.Links (b.first - 1) := by
      rw [Block.mem_iff] at hmem
      unfold Block.Links Block.past
      omega
    -- then the frame before is linked to the block, and so in it
    obtain ⟨d, hd, hdlow, hdhigh⟩ := (h.continues_iff (b.first - 1) (by omega)).1
      ((h'.continues_iff (b.first - 1) (by omega)).2 ⟨c, hc, hlink⟩)
    have hdmem : b.first ∈ d := by
      rw [Block.mem_iff]
      unfold Block.past at hdhigh
      omega
    obtain rfl := h.eq_of_mem hd hb hdmem hself
    rw [Block.mem_iff] at hmem
    omega
  have hlength : c.count = b.count := by
    rw [← h'.runLength_eq hc, ← h.runLength_eq hb, hstart]
  obtain ⟨first, count⟩ := b
  obtain ⟨first', count'⟩ := c
  obtain rfl : first' = first := hstart
  obtain rfl : count' = count := hlength
  exact hc

/-- The records determine the live blocks. -/
theorem unique (h : p.Represents ram live) (h' : p.Represents ram live') : live.Perm live' :=
  (List.perm_ext_iff_of_nodup h.nodup h'.nodup).2 fun _ => ⟨h.mem_of_mem h', h'.mem_of_mem h⟩

end FramePool.Represents

/-! ## Replaying a log -/

/-- The event hands frames out, or takes them back. -/
def Event.MovesFrames : Event → Prop
  | .allocated .. | .freed .. => True
  | _ => False

namespace FramePool

/-- The live blocks after an event, when they were `live` before it. -/
def tell (p : FramePool) (live : List Block) : Event → Option (List Block)
  | .allocated count start =>
    let b : Block := ⟨start.number.val, count⟩
    if start.isPageAligned = true ∧ b.Within p ∧ ∀ c ∈ live, b.Apart c then some (b :: live)
    else none
  | .freed count start =>
    let b : Block := ⟨start.number.val, count⟩
    if start.isPageAligned = true ∧ b ∈ live then some (live.erase b) else none
  | _ => some live

/-- The live blocks after a log, when they were `live` before it. -/
def replay (p : FramePool) (live : List Block) (es : List Event) : Option (List Block) :=
  es.foldlM p.tell live

theorem replay_append (p : FramePool) (live : List Block) (es es' : List Event) :
    p.replay live (es ++ es') = (p.replay live es).bind fun live' => p.replay live' es' :=
  List.foldlM_append

/-- A log goes on to be replayed from what it came to. -/
theorem replay_concat (h : p.replay live es = some live') (e : Event) :
    p.replay live (es ++ [e]) = p.tell live' e := by
  rw [replay_append, h, Option.bind_some]
  unfold replay
  simp

theorem tell_of_quiet (he : ¬ e.MovesFrames) : p.tell live e = some live := by
  cases e with
  | allocated count start => exact absurd trivial he
  | freed count start => exact absurd trivial he
  | _ => rfl

end FramePool

namespace Kernel

variable {k k' k'' : Kernel}

/-- Lending a block is told by its event. -/
theorem Lends.tell_lend (h : k.Lends p live) (hroom : p.HasRoom k.ram b) :
    p.tell live (.allocated b.count (frameAt b.first)) = some (b :: live) := by
  obtain ⟨-, hcount, hpast⟩ := hroom.1
  have hlt : b.first < 1048576 := h.sound.frame_lt (by unfold Block.past at hpast; omega)
  have hapart := (List.pairwise_cons.1 (h.lend hroom).represents.apart).1
  unfold FramePool.tell
  simp only [number_frameAt hlt]
  exact if_pos ⟨isPageAligned_frameAt hlt, hroom.1, hapart⟩

/-- Taking a live block back is told by its event. -/
theorem Lends.tell_takeBack (h : k.Lends p live) (hb : b ∈ live) :
    p.tell live (.freed b.count (frameAt b.first)) = some (live.erase b) := by
  obtain ⟨-, hcount, hpast⟩ := h.represents.within b hb
  have hlt : b.first < 1048576 := h.sound.frame_lt (by unfold Block.past at hpast; omega)
  unfold FramePool.tell
  simp only [number_frameAt hlt]
  exact if_pos ⟨isPageAligned_frameAt hlt, hb⟩

/-! ## Accounting for every change -/

/-- Writing to memory that holds no record lends what was lent before. -/
theorem Lends.mapRam_of_records (h : k.Lends p live) {f : Ram → Ram}
    (hsize : (f k.ram).size = k.ram.size)
    (hsame : ∀ j, p.IsRecord j → (f k.ram).byte j = k.ram.byte j) : (k.mapRam f).Lends p live where
  toHosts := h.toHosts.mapRam hsize
  represents := h.represents.congr fun i hi => by
    unfold FramePool.record
    rw [ram_mapRam, hsame _ ⟨Nat.le_add_right _ _, Nat.add_lt_add_left hi _⟩]

/-- From one kernel to another, by steps that leave the records alone or change them by one block
and write down which. -/
inductive Accounts (p : FramePool) (k : Kernel) : Kernel → Prop
  | refl : Accounts p k k
  | note {k' : Kernel} (h : Accounts p k k') {e : Event} (he : ¬ e.MovesFrames) :
    Accounts p k (k'.push e)
  | write {k' : Kernel} (h : Accounts p k k') {f : Ram → Ram}
    (hsize : (f k'.ram).size = k'.ram.size)
    (hsame : ∀ j, p.IsRecord j → (f k'.ram).byte j = k'.ram.byte j) : Accounts p k (k'.mapRam f)
  | take {k' : Kernel} (h : Accounts p k k') {b : Block} (hroom : p.HasRoom k'.ram b) :
    Accounts p k (k'.lend p b)
  | back {k' : Kernel} (h : Accounts p k k') {b : Block} {rest : List Block}
    (hlive : k'.Lends p (b :: rest)) : Accounts p k (k'.takeBack p b)

namespace Accounts

theorem trans (h : Accounts p k k') (h' : Accounts p k' k'') : Accounts p k k'' := by
  induction h' with
  | refl => exact h
  | note _ he ih => exact ih.note he
  | write _ hsize hsame ih => exact ih.write hsize hsame
  | take _ hroom ih => exact ih.take hroom
  | back _ hlive ih => exact ih.back hlive

/-- What was written to the log tells the blocks that are live in the end. -/
theorem replay (h : Accounts p k k') (hk : k.Lends p live) :
    ∃ es live', k'.log.toList = k.log.toList ++ es ∧ p.replay live es = some live' ∧
      k'.Lends p live' := by
  induction h with
  | refl => exact ⟨[], live, by simp, rfl, hk⟩
  | @note k' h e he ih =>
    obtain ⟨es, live', hlog, hreplay, hlends⟩ := ih
    refine ⟨es ++ [e], live', by simp [hlog], ?_, hlends.push e⟩
    rw [FramePool.replay_concat hreplay, FramePool.tell_of_quiet he]
  | write h hsize hsame ih =>
    obtain ⟨es, live', hlog, hreplay, hlends⟩ := ih
    exact ⟨es, live', hlog, hreplay, hlends.mapRam_of_records hsize hsame⟩
  | @take k' h b hroom ih =>
    obtain ⟨es, live', hlog, hreplay, hlends⟩ := ih
    refine ⟨es ++ [.allocated b.count (frameAt b.first)], b :: live', ?_, ?_, hlends.lend hroom⟩
    · simp [Kernel.lend, hlog]
    · rw [FramePool.replay_concat hreplay, hlends.tell_lend hroom]
  | @back k' h b rest hlive ih =>
    obtain ⟨es, live', hlog, hreplay, hlends⟩ := ih
    have hb : b ∈ live' := hlive.represents.mem_of_mem hlends.represents List.mem_cons_self
    refine ⟨es ++ [.freed b.count (frameAt b.first)], live'.erase b, ?_, ?_,
      (hlends.perm (List.perm_cons_erase hb)).takeBack⟩
    · simp [Kernel.takeBack, hlog]
    · rw [FramePool.replay_concat hreplay, hlends.tell_takeBack hb]

theorem lends (h : Accounts p k k') (hk : k.Lends p live) : ∃ live', k'.Lends p live' := by
  obtain ⟨-, live', -, -, hlends⟩ := h.replay hk
  exact ⟨live', hlends⟩

end Accounts

/-- The steps of a run are accounted for, however it ends, and `Q` holds when it is done. -/
abbrev Audited {α : Type} (k : Kernel) (p : FramePool) (Q : α → Kernel → Prop)
    (out : Outcome Refusal Kernel α) : Prop :=
  out.Meets (fun a k' => Accounts p k k' ∧ Q a k') (fun _ k' => Accounts p k k') fun _ => True

end Kernel

/-- The steps of the operation are accounted for wherever the pool lends anything, and what it
answers is one of `Q`. -/
def FramePool.Audits {α : Type} (p : FramePool) (x : Op α) (Q : α → Prop) : Prop :=
  ∀ k live, Kernel.Lends k p live → k.Audited p (fun a _ => Q a) (x.run k)

/-! ## Audited runs -/

namespace Kernel.Audited

variable {α β : Type} {k k' : Kernel} {Q : α → Kernel → Prop} {R : β → Kernel → Prop}
  {out : Outcome Refusal Kernel α}

theorem after (h : Accounts p k k') (hout : k'.Audited p Q out) : k.Audited p Q out := by
  refine hout.mono ?_ ?_ fun _ hH => hH
  · rintro a k'' ⟨h', hQ⟩
    exact ⟨h.trans h', hQ⟩
  · exact fun _ k'' h' => h.trans h'

/-- What is known of a run besides its steps. -/
theorem and {Q' : α → Kernel → Prop} {R' : Refusal → Kernel → Prop} {H : Halt → Prop}
    (hout : k.Audited p Q out) (h : out.Meets Q' R' H) : k.Audited p Q' out := by
  refine (Meets.and hout h).mono ?_ (fun _ _ hR => hR.1) fun _ _ => trivial
  rintro a k' ⟨⟨haccounts, -⟩, hQ⟩
  exact ⟨haccounts, hQ⟩

/-- What is known of the one state in which a run is done. -/
theorem of_done {Q' : α → Kernel → Prop} {a : α} (hout : k.Audited p Q out)
    (hrun : out = .done a k') (hQ : Q' a k') : k.Audited p Q' out := by
  have haccounts := (Meets.of_done hout hrun).1
  rw [hrun]
  exact .done ⟨haccounts, hQ⟩

theorem forget (hout : k.Audited p Q out) : k.Audited p (fun _ _ => True) out :=
  hout.mono (fun _ _ h => ⟨h.1, trivial⟩) (fun _ _ h => h) fun _ h => h

theorem bind {x : Op α} {f : α → Op β} (hx : k.Audited p Q (x.run k))
    (hf : ∀ a k', Q a k' → k'.Audited p R ((f a).run k')) :
    k.Audited p R ((x >>= f).run k) := by
  refine Transition.Meets.bind hx ?_
  rintro a k' ⟨haccounts, hQ⟩
  exact (hf a k' hQ).after haccounts

theorem discard {x : Op α} {Q : Kernel → Prop} (hx : k.Audited p (fun _ => Q) (x.run k)) :
    k.Audited p (fun _ => Q) ((discard x).run k) :=
  Transition.Meets.discard hx

/-- Cleaning up starts where the run was refused. -/
theorem onRefusal {x : Op α} {cleanup : Refusal → Op Unit} (hx : k.Audited p Q (x.run k))
    (hc : ∀ cause k', x.run k = .refused cause k' →
      k'.Audited p (fun _ _ => True) ((cleanup cause).run k')) :
    k.Audited p Q ((x.onRefusal cleanup).run k) := by
  rw [Transition.run_onRefusal]
  cases hrun : x.run k with
  | done a k' =>
    have hdone := Meets.of_done hx hrun
    exact .done hdone
  | refused cause k' =>
    have hrefused := Meets.of_refused hx hrun
    have hclean := (hc cause k' hrun).after hrefused
    exact Meets.andThen (hclean.mono (fun _ _ h => .refused h.1) (fun _ _ h => h) fun _ h => h)
  | halted cause => exact .halted trivial

/-- A loop of which the steps are known from an invariant. -/
theorem forM {f : β → Op PUnit} {I : List β → Kernel → Prop}
    (step : ∀ x xs k, I (x :: xs) k → k.Audited p (fun _ => I xs) ((f x).run k)) (xs : List β)
    (h : I xs k) : k.Audited p (fun _ => I []) ((xs.forM f).run k) := by
  induction xs generalizing k with
  | nil => exact .done ⟨.refl, h⟩
  | cons x xs ih =>
    change k.Audited p _ ((f x >>= fun _ => xs.forM f).run k)
    exact (step x xs k h).bind fun _ k' h' => ih h'

end Kernel.Audited

/-! ## Audited operations -/

namespace FramePool

namespace Audits

variable {α β : Type} {Q Q' : α → Prop} {R : β → Prop} {x : Op α}

theorem mono (hx : p.Audits x Q) (hQ : ∀ a, Q a → Q' a) : p.Audits x Q' := fun k live hk =>
  (hx k live hk).mono (fun a _ h => ⟨h.1, hQ a h.2⟩) (fun _ _ h => h) fun _ h => h

theorem pure {a : α} (ha : Q a) : p.Audits (pure a) Q := fun _ _ _ => .done ⟨.refl, ha⟩

theorem refuse (cause : Refusal) : p.Audits (Transition.refuse cause) Q :=
  fun _ _ _ => .refused .refl

theorem halt (cause : Halt) : p.Audits (Transition.halt cause) Q := fun _ _ _ => .halted trivial

theorem observe (f : Kernel → α) : p.Audits (Transition.observe f) fun _ => True :=
  fun _ _ _ => .done ⟨.refl, trivial⟩

theorem lift (c : Except Halt α) : p.Audits (liftM c) fun _ => True := by
  cases c with
  | ok a => exact pure trivial
  | error cause => exact halt cause

theorem bind {f : α → Op β} (hx : p.Audits x Q) (hf : ∀ a, Q a → p.Audits (f a) R) :
    p.Audits (x >>= f) R := by
  intro k live hk
  refine Transition.Meets.bind (hx k live hk) ?_
  rintro a k' ⟨haccounts, hQ⟩
  obtain ⟨live', hk'⟩ := haccounts.lends hk
  exact (hf a hQ k' live' hk').after haccounts

theorem discard (hx : p.Audits x Q) : p.Audits (discard x) fun _ => True := fun k live hk =>
  Kernel.Audited.discard ((hx.mono fun _ _ => trivial) k live hk)

theorem attempt (hx : p.Audits x Q) : p.Audits x.attempt fun _ => True := by
  intro k live hk
  rw [Transition.run_attempt]
  generalize x.run k = out, hx k live hk = hout
  cases hout with
  | done h => exact .done ⟨h.1, trivial⟩
  | refused h => exact .done ⟨h, trivial⟩
  | halted h => exact .halted h

theorem onRefusal {cleanup : Refusal → Op Unit} (hx : p.Audits x Q)
    (hc : ∀ cause, p.Audits (cleanup cause) fun _ => True) : p.Audits (x.onRefusal cleanup) Q := by
  intro k live hk
  refine Transition.Meets.onRefusal (hx k live hk) fun cause k' haccounts => ?_
  obtain ⟨live', hk'⟩ := haccounts.lends hk
  exact ((hc cause k' live' hk').after haccounts).mono (fun _ _ h => h.1) (fun _ _ h => h)
    fun _ h => h

theorem forM {f : β → Op PUnit} (hf : ∀ x, p.Audits (f x) fun _ => True) (xs : List β) :
    p.Audits (xs.forM f) fun _ => True := by
  induction xs with
  | nil => exact pure trivial
  | cons x xs ih => exact (hf x).bind fun _ _ => ih

end Audits

/-! ## Operations on memory and on the pool -/

/-- The address is that of a frame that may be handed out, so that no record lies in it. -/
def Grants (p : FramePool) (a : PhysicalAddress) : Prop :=
  a.isPageAligned = true ∧ p.reserved ≤ a.number.val

theorem Sound.grants {f : Nat} (h : p.Sound) (hlow : p.reserved ≤ f) (hhigh : f < p.total) :
    p.Grants (frameAt f) := by
  have hlt := h.frame_lt hhigh
  refine ⟨isPageAligned_frameAt hlt, ?_⟩
  rw [number_frameAt hlt]
  exact hlow

/-- Writing to a frame that may be handed out. -/
theorem audits_onRam {f : Nat} {g : Ram → Ram} (hf : p.reserved ≤ f)
    (hoff : ∀ ram : Ram, ram.SameOff (g ram) f) : p.Audits (Op.onRam g) fun _ => True := by
  intro k live hk
  refine .done ⟨.write .refl (hoff k.ram).size_eq fun j hj => (hoff k.ram).byte_eq j ?_, trivial⟩
  have hlt := hk.sound.record_lt hj
  omega

section

variable (p)

theorem audits_record (he : ¬ e.MovesFrames) : p.Audits (Op.record e) fun _ => True :=
  fun _ _ _ => .done ⟨.note .refl he, trivial⟩

theorem audits_look {α : Type} (view : Ram → α) : p.Audits (Op.look view) fun _ => True :=
  Audits.observe _

theorem audits_pool : p.Audits Op.pool fun _ => True :=
  (Audits.observe _).bind fun q? _ => by
    cases q? with
    | some q => exact .pure trivial
    | none => exact .halt _

theorem audits_directMap : p.Audits Op.directMap fun _ => True :=
  (Audits.observe _).bind fun m? _ => by
    cases m? with
    | some m => exact .pure trivial
    | none => exact .halt _

theorem audits_directMapped (a : PhysicalAddress) : p.Audits (Op.directMapped a) fun _ => True :=
  (audits_directMap p).bind fun m _ => .lift (m.reach a)

theorem audits_fromDirectMapped (v : KernelAddress) :
    p.Audits (Op.fromDirectMapped v) fun _ => True :=
  (audits_directMap p).bind fun m _ => .lift (m.reached v)

theorem audits_reachFrame (a : PhysicalAddress) : p.Audits (Op.reachFrame a) fun _ => True :=
  (audits_directMapped p a).discard

theorem audits_allocate (count : Nat) : p.Audits (Op.allocate count) p.Grants := by
  intro k live hk
  rcases Nat.eq_zero_or_pos count with rfl | hcount
  · rw [run_allocate_zero hk.toHosts]
    exact .halted trivial
  · refine (hk.allocate hcount).mono ?_ ?_ fun _ _ => trivial
    · rintro _ _ ⟨s, rfl, hfit, rfl, -⟩
      exact ⟨.take .refl hfit.1, hk.sound.grants hfit.1.1.1 hfit.1.1.first_lt⟩
    · rintro _ _ ⟨-, -, rfl⟩
      exact .note .refl id

/-- Frames that are handed out are filled after their records are written. -/
theorem audits_allocateCleared (count : Nat) : p.Audits (Op.allocateCleared count) p.Grants := by
  refine (audits_allocate p count).bind fun start hstart => ?_
  have hfill : p.Audits (Op.onRam fun ram => ram.fill start.val (count * pageSize) 0)
      fun _ => True := by
    intro k live hk
    refine .done ⟨.write .refl (Ram.size_fill _ _ _ _) fun j hj => ?_, trivial⟩
    have hlt := hk.sound.record_lt hj
    have hval := Address.val_eq_of_aligned hstart.1
    have hlow := hstart.2
    rw [Ram.byte_fill, if_neg]
    simp only [pageSize] at hlt hval
    omega
  exact (audits_reachFrame p start).bind fun _ _ => hfill.bind fun _ _ => .pure hstart

theorem audits_takeFrame : p.Audits Op.takeFrame p.Grants :=
  (audits_allocate p 1).bind fun frame hframe =>
    (audits_reachFrame p frame).bind fun _ _ => .pure hframe

theorem audits_free (a : PhysicalAddress) : p.Audits (Op.free a) fun _ => True := by
  intro k live hk
  rcases Kernel.free_cases p live a with ⟨b, hb, rfl⟩ | ⟨cause, hrefused⟩
  · rw [hk.run_free_of_first hb]
    exact .done ⟨.back .refl (hk.perm (List.perm_cons_erase hb)), trivial⟩
  · rw [hrefused k hk]
    exact .refused .refl

theorem audits_freeOwned (a : PhysicalAddress) : p.Audits (Op.freeOwned a) fun _ => True :=
  (audits_free p a).attempt.bind fun result _ => by
    cases result with
    | ok released => exact .pure trivial
    | error cause => exact .halt _

theorem audits_allocateKernelPages (count : Nat) :
    p.Audits (Op.allocateKernelPages count) fun _ => True :=
  (audits_allocate p count).attempt.bind fun result _ => by
    cases result with
    | ok start => exact (audits_directMapped p start).bind fun _ _ => .pure trivial
    | error cause => exact (audits_record p id).bind fun _ _ => .pure trivial

theorem audits_freeKernelPages (v : KernelAddress) :
    p.Audits (Op.freeKernelPages v) fun _ => True :=
  (audits_pool p).discard.bind fun _ _ =>
    (audits_fromDirectMapped p v).bind fun a _ => audits_freeOwned p a

end

end FramePool

end SoftPaging
