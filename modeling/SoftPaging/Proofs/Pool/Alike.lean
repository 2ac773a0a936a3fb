import Mathlib
import SoftPaging.Proofs.Kernel.Tracks
import SoftPaging.Proofs.Pool.Serving
import SoftPaging.Proofs.Ram.Writes

/-!
# Kernels that look alike

Two kernels are alike up to the bytes at `X` when nothing else tells them apart: the log, the size of
RAM and all bytes are the same, except for those at `X` and those of free frames
(`Kernel.Alike`). What lies in a free frame is left over from its last owner, so this is what a client
may rely on who has never been told what is at `X`.

The records of the pool lie in reserved frames. So kernels that are alike have lent the same blocks
(`Holds.alike`), and the pool serves them alike. A frame that is taken is hidden no more because it is
free, and has to be hidden by `X` until it is overwritten (`Alike.lend`, `Alike.lendCleared`); one that
is given back need not be hidden by `X` any longer (`Alike.takeBack`).
-/

namespace SoftPaging

open Outcome

/-- The bytes of the frames of some blocks. -/
def bytesOf (bs : List Block) : Set Nat := {n | n / pageSize ∈ framesOf bs}

theorem mem_bytesOf {bs : List Block} {n : Nat} : n ∈ bytesOf bs ↔ n / pageSize ∈ framesOf bs :=
  Iff.rfl

namespace FramePool

variable {p : FramePool} {ram ram' : Ram} {live : List Block} {n : Nat}

/-- The position lies in a frame that may be handed out. -/
def Manages (p : FramePool) (n : Nat) : Prop := p.reserved ≤ n / pageSize ∧ n / pageSize < p.total

/-- The position lies in a free frame. -/
def Vacant (p : FramePool) (ram : Ram) (n : Nat) : Prop :=
  p.Manages n ∧ p.isFree ram (n / pageSize) = true

theorem Represents.vacant_iff (h : p.Represents ram live) :
    p.Vacant ram n ↔ n / pageSize ∈ p.spare live := by
  unfold Vacant
  rw [mem_spare]
  constructor
  · rintro ⟨⟨hlow, hhigh⟩, hfree⟩
    exact ⟨hlow, hhigh, ((h.isFree_iff hhigh).1 hfree).2⟩
  · rintro ⟨hlow, hhigh, hout⟩
    exact ⟨⟨hlow, hhigh⟩, (h.isFree_iff hhigh).2 ⟨hlow, hout⟩⟩

/-! ## The search looks at the records -/

section

variable (hsame : ∀ i < p.total, p.record ram' i = p.record ram i)

include hsame

theorem isFree_congr {i : Nat} (hi : i < p.total) : p.isFree ram' i = p.isFree ram i := by
  unfold isFree
  rw [hsame i hi]

theorem firstFreeFrom_congr (i m : Nat) (hm : i + m ≤ p.total) :
    p.firstFreeFrom ram' i m = p.firstFreeFrom ram i m := by
  induction m generalizing i with
  | zero => rfl
  | succ m ih =>
    rw [firstFreeFrom, firstFreeFrom, isFree_congr hsame (by omega), ih (i + 1) (by omega)]

theorem windowFrom_congr (count start run : Nat) :
    p.windowFrom ram' count start run = p.windowFrom ram count start run := by
  fun_induction p.windowFrom ram count start run with
  | case1 start run hrun hword hfits hfree ih =>
    rw [windowFrom, if_pos hrun, if_pos hword, if_pos hfits, isFree_congr hsame (by omega),
      if_pos hfree, ih]
  | case2 start run hrun hword hfits hbusy ih =>
    rw [windowFrom, if_pos hrun, if_pos hword, if_pos hfits, isFree_congr hsame (by omega),
      if_neg hbusy, ih]
  | case3 start run hrun hword hpast => rw [windowFrom, if_pos hrun, if_pos hword, if_neg hpast]
  | case4 start run hrun hword => rw [windowFrom, if_pos hrun, if_neg hword]
  | case5 start run hrun => rw [windowFrom, if_neg hrun]

theorem find_congr (hreserved : p.reserved ≤ p.total) (count : Nat) :
    p.find ram' count = p.find ram count := by
  unfold find firstFree? firstWindow?
  rw [firstFreeFrom_congr hsame _ _ (by omega), windowFrom_congr hsame]

end

end FramePool

namespace Kernel

/-- The kernels are the same but for the bytes at `X`, all of which the pool manages, and those of free
frames. -/
structure Alike (p : FramePool) (X : Set Nat) (k k' : Kernel) : Prop where
  directMap_eq : k'.directMap? = k.directMap?
  pool_eq : k'.pool? = k.pool?
  log_eq : k'.log = k.log
  size_eq : k'.ram.size = k.ram.size
  byte_eq : ∀ n, n ∉ X → ¬ p.Vacant k.ram n → k'.ram.byte n = k.ram.byte n
  managed : ∀ n ∈ X, p.Manages n

variable {p : FramePool} {X Y A : Set Nat} {k k' : Kernel} {live : List Block} {b : Block}

namespace Alike

theorem reserved_eq (h : k.Alike p X k') {n : Nat} (hn : n / pageSize < p.reserved) :
    k'.ram.byte n = k.ram.byte n :=
  h.byte_eq n (fun hX => Nat.not_lt.2 (h.managed n hX).1 hn) fun hvacant => Nat.not_lt.2 hvacant.1.1 hn

theorem record_eq (h : k.Alike p X k') (hp : p.Sound) {i : Nat} (hi : i < p.total) :
    p.record k'.ram i = p.record k.ram i :=
  congrArg FrameRecord.mk (h.reserved_eq (hp.record_lt ⟨Nat.le_add_right _ _, by omega⟩))

/-- More may be hidden, and what is free need not be hidden twice. -/
theorem mono (h : k.Alike p X k') (hsub : ∀ n ∈ X, n ∈ Y ∨ p.Vacant k.ram n)
    (hmanaged : ∀ n ∈ Y, p.Manages n) : k.Alike p Y k' :=
  { h with
    byte_eq := fun n hY hvacant => h.byte_eq n (fun hX => (hsub n hX).elim hY hvacant) hvacant
    managed := hmanaged }

theorem push (h : k.Alike p X k') (e : Event) : (k.push e).Alike p X (k'.push e) :=
  { h with log_eq := by rw [log_push, log_push, h.log_eq] }

/-- A change of RAM that writes at `A` may leave hidden what was hidden or free, and need not hide
what it writes. -/
theorem mapRam {g : Ram → Ram} (h : k.Alike p X k') (hg : Ram.Writes g A)
    (hhidden : ∀ n, n ∈ X ∨ p.Vacant k.ram n → n ∈ A ∨ n ∈ Y ∨ p.Vacant (g k.ram) n)
    (hmanaged : ∀ n ∈ Y, p.Manages n) :
    (k.mapRam g).Alike p Y (k'.mapRam g) where
  directMap_eq := h.directMap_eq
  pool_eq := h.pool_eq
  log_eq := h.log_eq
  size_eq := by rw [ram_mapRam, ram_mapRam, hg.size_eq, hg.size_eq, h.size_eq]
  managed := hmanaged
  byte_eq n hY hvacant := by
    refine hg.byte_congr h.size_eq ?_
    by_contra hnot
    push Not at hnot
    obtain ⟨hA, hne⟩ := hnot
    -- the bytes differed before, so the position was hidden or free
    have hbefore : n ∈ X ∨ p.Vacant k.ram n := by
      by_contra hshown
      push Not at hshown
      exact hne (h.byte_eq n hshown.1 hshown.2)
    rcases hhidden n hbefore with hmem | hmem | hfree
    · exact hA hmem
    · exact hY hmem
    · exact hvacant hfree

/-- Writing outside the records frees nothing and takes nothing. -/
theorem write {g : Ram → Ram} (h : k.Alike p X k') (hg : Ram.Writes g A)
    (hrecords : ∀ j, p.IsRecord j → (g k.ram).byte j = k.ram.byte j)
    (hsub : ∀ n ∈ X, n ∈ A ∨ n ∈ Y) (hmanaged : ∀ n ∈ Y, p.Manages n) :
    (k.mapRam g).Alike p Y (k'.mapRam g) := by
  refine h.mapRam hg (fun n hn => ?_) hmanaged
  rcases hn with hX | ⟨hmanages, hfree⟩
  · exact (hsub n hX).imp_right .inl
  · have hsame : ∀ i < p.total, p.record (g k.ram) i = p.record k.ram i := fun i hi =>
      congrArg FrameRecord.mk (hrecords _ ⟨Nat.le_add_right _ _, by omega⟩)
    exact .inr (.inr ⟨hmanages, (FramePool.isFree_congr hsame hmanages.2).trans hfree⟩)

end Alike

/-! ## Blocks that are lent -/

/-- What is lent on a kernel is lent on one that looks alike. -/
theorem Holds.alike (hk : k.Holds p live) (h : k.Alike p X k') : k'.Holds p live where
  installed := h.pool_eq.trans hk.installed
  sound := hk.sound
  fits := by
    unfold FramePool.FitsIn
    rw [h.size_eq]
    exact hk.fits
  represents := hk.represents.congr fun _ hi => h.record_eq hk.sound hi
  covers := hk.covers.congr h.directMap_eq
  ram_ge := by
    rw [h.size_eq]
    exact hk.ram_ge

theorem Holds.vacant_iff (hk : k.Holds p live) {n : Nat} :
    p.Vacant k.ram n ↔ n / pageSize ∈ p.spare live := hk.represents.vacant_iff

/-- A live frame of which nothing is hidden is the same. -/
theorem Alike.sameFrame (h : k.Alike p X k') (hk : k.Holds p live) {f : Nat}
    (hf : f ∈ framesOf live) (hX : ∀ n ∈ X, n / pageSize ≠ f) : k.ram.SameFrame k'.ram f := by
  intro j hj
  refine h.byte_eq j (fun hmem => hX j hmem hj) fun hvacant => ?_
  rw [hk.vacant_iff, hj] at hvacant
  exact hvacant.2.2 hf

/-- Bytes of own blocks that are not hidden are the same. -/
theorem Alike.eq_of_shown {own rest : List Block} {V : Set Nat} (h : k.Alike p X k')
    (hk : k.Holds p (own ++ rest)) (hV : V ⊆ bytesOf own) (hX : Disjoint X V) :
    ∀ n ∈ V, k'.ram.byte n = k.ram.byte n := by
  intro n hn
  refine h.byte_eq n (fun hmem => Set.disjoint_left.1 hX hmem hn) fun hvacant => ?_
  rw [hk.vacant_iff] at hvacant
  exact hvacant.2.2 (mem_framesOf_append.2 (.inl (hV hn)))

/-- When only bytes of other blocks are hidden, the frames of the own ones are the same. -/
theorem Alike.sameBlocks {own rest : List Block} (h : k.Alike p X k')
    (hk : k.Holds p (own ++ rest)) (hX : X ⊆ bytesOf rest) : k.ram.SameBlocks k'.ram own := by
  intro f hf
  refine h.sameFrame hk (mem_framesOf_append.2 (.inl hf)) ?_
  rintro n hn rfl
  exact hk.represents.disjoint_of_append hf (hX hn)

theorem Alike.lend (h : k.Alike p X k') (hk : k.Holds p live) (hroom : p.HasRoom k.ram b) :
    (k.lend p b).Alike p (X ∪ bytesOf [b]) (k'.lend p b) := by
  have hk₁ := hk.toLends.lend hroom
  refine Alike.push (h.mapRam (p.writes_takeRun b.first b.count) (fun n hn => .inr ?_) ?_) _
  · rcases hn with hX | hvacant
    · exact .inl (.inl hX)
    · rw [hk.vacant_iff] at hvacant
      change n ∈ X ∪ bytesOf [b] ∨ p.Vacant (k.lend p b).ram n
      rw [hk₁.represents.vacant_iff]
      by_cases hmem : n / pageSize ∈ b
      · exact .inl (.inr (mem_framesOf_cons.2 (.inl hmem)))
      · exact .inr ⟨hvacant.1, hvacant.2.1, fun hlive =>
          (mem_framesOf_cons.1 hlive).elim hmem hvacant.2.2⟩
  · rintro n (hX | hmem)
    · exact h.managed n hX
    · obtain ⟨hlow, -, hpast⟩ := hroom.1
      have hb : n / pageSize ∈ b := by simpa [bytesOf] using hmem
      exact ⟨hlow.trans hb.1, Nat.lt_of_lt_of_le hb.2 hpast⟩

/-- A block that is filled with zeros has nothing to hide. -/
theorem Alike.fill (h : k.Alike p (X ∪ bytesOf [b]) k') (hp : p.Sound) (hb : p.reserved ≤ b.first) :
    (k.mapRam (·.fill (b.first * pageSize) (b.count * pageSize) 0)).Alike p X
      (k'.mapRam (·.fill (b.first * pageSize) (b.count * pageSize) 0)) := by
  refine h.write (Ram.writes_fill _ _ 0) (fun j hj => ?_) (fun n hn => ?_) fun n hn =>
    h.managed n (.inl hn)
  · have hrecord := hp.record_lt hj
    rw [Ram.byte_fill, if_neg]
    simp only [pageSize] at *
    omega
  · refine hn.symm.imp_left fun hblock => ?_
    have hmem : n / pageSize ∈ b := by simpa [bytesOf] using hblock
    rw [Block.mem_iff] at hmem
    simp only [Set.mem_Ico, pageSize] at *
    omega

/-- The lowest spare frame, taken and filled with zeros. -/
theorem Alike.lendCleared (h : k.Alike p X k') (hk : k.Holds p live) {f : Nat}
    (hf : IsLeast (p.spare live) f) : (k.lendCleared p f).Alike p X (k'.lendCleared p f) := by
  have hlent := h.lend hk (hk.represents.hasRoom_iff.2 hf.1)
  have hfill := hlent.fill hk.sound hf.1.1
  rwa [Nat.one_mul] at hfill

theorem Alike.takeBack (h : k.Alike p X k') (hk : k.Holds p (b :: live)) :
    (k.takeBack p b).Alike p X (k'.takeBack p b) := by
  have hlength (k : Kernel) (hk : k.Holds p (b :: live)) :
      k.takeBack p b = (k.mapRam (p.clearRun · b.first b.count)).push
        (.freed b.count (frameAt b.first)) := by
    obtain ⟨ram, directMap?, pool?, log⟩ := k
    have hrun := hk.represents.runLength_eq List.mem_cons_self
    change Kernel.push ⟨p.clearRun ram b.first (p.runLength ram b.first), _, _, _⟩ _ = _
    rw [hrun]
    rfl
  have hk₁ := hk.takeBack
  rw [hlength k hk] at hk₁
  rw [hlength k hk, hlength k' (hk.alike h)]
  refine Alike.push (h.mapRam (p.writes_clearRun _ _) (fun n hn => .inr ?_) h.managed) _
  rcases hn with hX | hvacant
  · exact .inl hX
  · rw [hk.vacant_iff] at hvacant
    exact .inr (hk₁.vacant_iff.2 (p.spare_subset (fun i hi => mem_framesOf_cons.2 (.inr hi)) hvacant))

/-! ## The pool at work -/

section

open Transition (Tracks ReadsAlike)

variable {a : PhysicalAddress}

theorem Alike.reads_directMap (h : k.Alike p X k') : Op.directMap.ReadsAlike k k' := by
  unfold Op.directMap
  refine (ReadsAlike.observe h.directMap_eq).bind fun m? _ => ?_
  cases m? with
  | some m => exact .pure m
  | none => exact .halt _

theorem Alike.reads_reachFrame (h : k.Alike p X k') (a : PhysicalAddress) :
    (Op.reachFrame a).ReadsAlike k k' := by
  unfold Op.reachFrame Op.directMapped
  exact (h.reads_directMap.bind fun m _ => .lift _).discard

theorem Alike.reads_fromDirectMapped (h : k.Alike p X k') (v : KernelAddress) :
    (Op.fromDirectMapped v).ReadsAlike k k' :=
  h.reads_directMap.bind fun _ _ => .lift _

theorem Alike.tracks_record (h : k.Alike p X k') (e : Event) :
    (Op.record e).Tracks (Alike p X) k k' := .change (h.push e)

theorem Alike.tracks_onRam {g : Ram → Ram} (h : k.Alike p X k') (hg : Ram.Writes g A)
    (hrecords : ∀ j, p.IsRecord j → (g k.ram).byte j = k.ram.byte j) :
    (Op.onRam g).Tracks (Alike p X) k k' :=
  .change (h.write hg hrecords (fun _ hn => .inr hn) h.managed)

/-- An allocation takes the same frames. What they hold is hidden. -/
theorem Alike.allocate (h : k.Alike p X k') (hk : k.Holds p live) (count : Nat) :
    ((Op.allocate count).run k).Matches
      (fun a k₁ k₁' => k₁.Alike p (X ∪ bytesOf [⟨a.number.val, count⟩]) k₁')
      (fun _ k₁ k₁' => k₁.Alike p X k₁') ((Op.allocate count).run k') := by
  have hk' := hk.alike h
  rcases Nat.eq_zero_or_pos count with rfl | hcount
  · rw [run_allocate_zero hk.toHosts, run_allocate_zero hk'.toHosts]
    exact .halted _
  · rw [run_allocate hk.toHosts hcount, run_allocate hk'.toHosts hcount,
      FramePool.find_congr (fun _ hi => h.record_eq hk.sound hi) hk.sound.reserved_lt.le]
    cases hfind : p.find k.ram count with
    | error cause => exact .halted cause
    | ok o =>
      cases o with
      | none => exact .refused (h.push _)
      | some s =>
        have hroom := (FramePool.find_firstFit hcount hfind).1
        have hpast : s + count ≤ p.total := hroom.1.2.2
        refine .done ?_
        rw [number_frameAt (hk.sound.frame_lt (show s < p.total by omega))]
        exact h.lend hk hroom

/-- Frames that are filled with zeros have nothing to hide. -/
theorem Alike.allocateCleared (h : k.Alike p X k') (hk : k.Holds p live) (count : Nat) :
    (Op.allocateCleared count).Tracks (Alike p X) k k' := by
  unfold Op.allocateCleared
  refine Transition.Matches.bind (h.allocate hk count) fun a k₁ k₁' hrun h₁ => ?_
  have hcount : 0 < count := by
    by_contra hzero
    obtain rfl : count = 0 := by omega
    rw [run_allocate_zero hk.toHosts] at hrun
    cases hrun
  obtain ⟨s, rfl, ⟨hroom, -⟩, rfl, -⟩ := (hk.toLends.allocate hcount).of_done hrun
  have hk₁ := (hk.handsOut_lend hroom).holds
  have hlt : s < p.total := hroom.1.first_lt
  have hnumber := number_frameAt (hk.sound.frame_lt hlt)
  rw [hnumber] at h₁ hk₁
  have hmem : s ∈ framesOf (⟨s, count⟩ :: live) :=
    mem_framesOf_cons.2 (.inl hroom.1.first_mem)
  simp only [Transition.run_bind, hk₁.run_reachFrame hmem, (hk₁.alike h₁).run_reachFrame hmem,
    andThen_done, Op.run_onRam, Transition.run_pure, val_frameAt (hk.sound.frame_lt hlt)]
  exact .done (h₁.fill hk.sound hroom.1.1)

/-- Giving back goes by the live blocks. -/
theorem Alike.free (h : k.Alike p X k') (hk : k.Holds p live) (a : PhysicalAddress) :
    (Op.free a).Tracks (Alike p X) k k' := by
  have hk' := hk.alike h
  unfold Tracks
  rcases free_cases p live a with ⟨b, hb, rfl⟩ | ⟨cause, hrefused⟩
  · rw [hk.run_free_of_first hb, hk'.run_free_of_first hb]
    exact .done (h.takeBack (hk.perm (List.perm_cons_erase hb)))
  · rw [hrefused k hk.toLends, hrefused k' hk'.toLends]
    exact .refused h

theorem Alike.freeOwned (h : k.Alike p X k') (hk : k.Holds p live) (a : PhysicalAddress) :
    (Op.freeOwned a).Tracks (Alike p X) k k' := by
  unfold Op.freeOwned
  refine (h.free hk a).attempt.bind fun answer _ _ _ h₁ => ?_
  cases answer with
  | ok _ => exact .pure _ h₁
  | error cause => exact .halt _

/-- The kernels look alike, but for what lies in the pages that were handed out, if any were. -/
def AlikeBeside (p : FramePool) (X : Set Nat) (count : Nat) (v? : Option KernelAddress)
    (k k' : Kernel) : Prop :=
  match v? with
  | some v => ∃ a, (Op.fromDirectMapped v).run k = .done a k ∧
      k.Alike p (X ∪ bytesOf [⟨a.number.val, count⟩]) k'
  | none => k.Alike p X k'

/-- The kernel's own pages are hidden by the frames behind their address. -/
theorem Alike.allocateKernelPages (h : k.Alike p X k') (hk : k.Holds p live) (count : Nat) :
    ((Op.allocateKernelPages count).run k).Matches (AlikeBeside p X count)
      (fun _ => Alike p X) ((Op.allocateKernelPages count).run k') := by
  unfold Op.allocateKernelPages
  have halloc := h.allocate hk count
  rw [Transition.run_bind, Transition.run_bind, Transition.run_attempt, Transition.run_attempt]
  generalize (Op.allocate count).run k = o, (Op.allocate count).run k' = o' at halloc
  cases halloc with
  | @done a k₁ _ h₁ =>
    cases hmap : k₁.directMap? with
    | none =>
      simp only [andThen_done, Op.directMapped, Op.directMap, Transition.run_bind,
        Transition.run_observe, hmap, h₁.directMap_eq.trans hmap]
      exact .halted _
    | some m =>
      have hm := Op.run_directMap hmap
      simp only [andThen_done, Op.directMapped, Transition.run_bind, hm,
        Op.run_directMap (h₁.directMap_eq.trans hmap)]
      cases hreach : m.reach a with
      | error cause => exact .halted _
      | ok v =>
        refine .done ⟨a, ?_, h₁⟩
        simp only [Op.fromDirectMapped, Transition.run_bind, hm, andThen_done,
          DirectMap.reached_reach hreach, Transition.liftM_ok, Transition.run_pure]
  | refused h₁ => exact .done (h₁.push _)
  | halted cause => exact .halted cause

theorem Alike.freeKernelPages (h : k.Alike p X k') (hk : k.Holds p live) (v : KernelAddress) :
    (Op.freeKernelPages v).Tracks (Alike p X) k k' := by
  have hpool : Op.pool.ReadsAlike k k' := by
    unfold Op.pool
    refine (ReadsAlike.observe h.pool_eq).bind fun p? _ => ?_
    cases p? with
    | some p => exact .pure p
    | none => exact .halt _
  unfold Op.freeKernelPages
  exact hpool.discard.tracks_bind h fun _ _ =>
    (h.reads_fromDirectMapped v).tracks_bind h fun a _ => h.freeOwned hk a

end

end Kernel

end SoftPaging
