import Mathlib
import SoftPaging.Proofs.Session.Duplication
import SoftPaging.Proofs.Session.Twins

/-!
# Stale memory

What a free frame holds is left over from its last owner. Two machines that differ in nothing but the
bytes of free frames are asked for the same things, and come to the same (`stale_memory_never_leaks`):
whatever is read afterwards by way of an object, of the MMU, of the frame records or of a block that was
handed out cleared is the same on both, and so is every answer and every refusal. All that may differ
is what lies in blocks that were handed out as they were.

A run carries along the set of blocks of which the client knows what they hold, for no part of the
machine remembers how a block was asked for.
-/

namespace SoftPaging

open Outcome

/-- Two states of RAM that differ in the bytes of free frames only. -/
structure Ram.SameButFree (p : FramePool) (ram ram' : Ram) : Prop where
  size_eq : ram'.size = ram.size
  byte_eq : ∀ n, ¬ p.Vacant ram n → ram'.byte n = ram.byte n

theorem Ram.sameButFree_store {p : FramePool} {ram : Ram} {n : Nat} (h : p.Vacant ram n) (v : UInt8) :
    ram.SameButFree p (ram.store n v) where
  size_eq := ram.size_store n v
  byte_eq j hj := by
    rw [byte_store, if_neg]
    rintro ⟨rfl, -⟩
    exact hj h

/-! ## What a client knows -/

namespace Request

/-- The request asks for frames that are filled with zeros. -/
def Clears : Request → Prop
  | allocateCleared _ => True
  | _ => False

/-- The blocks of which the client knows what they hold after a request that led from `s` to `s₁`, when
it knew it of the blocks `C` before. -/
def known (r : Request) (s : Session) (C : Set Block) (s₁ : Session) : Set Block :=
  {b | b ∈ s₁.blocks ∧ (b ∈ C ∨ r.Clears ∧ b ∉ s.blocks)}

end Request

/-- What a client asks for and what comes of it, oldest first, each request with the cause if it was
refused. The set is that of the blocks of which the client knows what they hold. -/
inductive Session.Serves (p : FramePool) (s₀ : Session) :
    List (Request × Option Refusal) → Set Block → Session → Prop
  | start : Serves p s₀ [] {b | b ∈ s₀.blocks} s₀
  | granted {trace C s r s₁} (h : Serves p s₀ trace C s) (hr : r.Permitted p s)
      (hrun : (Session.perform r).run s = .done () s₁) :
      Serves p s₀ (trace ++ [(r, none)]) (r.known s C s₁) s₁
  | refused {trace C s r cause s₁} (h : Serves p s₀ trace C s) (hr : r.Permitted p s)
      (hrun : (Session.perform r).run s = .refused cause s₁) :
      Serves p s₀ (trace ++ [(r, some cause)]) (r.known s C s₁) s₁

namespace Session

variable {p : FramePool} {X Y : Set Nat} {C : Set Block} {s s' s₀ s₁ : Session} {i : Nat} {o : Object}
  {t : PageTable} {r : Request} {trace : List (Request × Bool)}
  {asked : List (Request × Option Refusal)}

/-- The session on a machine with other RAM. -/
def withRam (s : Session) (ram : Ram) : Session := s.withKernel (s.kernel.mapRam fun _ => ram)

/-- What lies in free frames is all that tells the sessions apart. -/
theorem Sound.shadows {ram' : Ram} (h : s.Sound p) (hfree : s.kernel.ram.SameButFree p ram') :
    s.Shadows p ∅ {b | b ∈ s.blocks} (s.withRam ram') where
  sound := h
  alike := ⟨⟨rfl, rfl, rfl, hfree.size_eq, fun n _ => hfree.byte_eq n, fun _ hn => hn.elim⟩, rfl, rfl,
    rfl⟩
  conceals := ⟨fun _ _ _ => Set.empty_disjoint _, fun _ _ _ => Set.empty_disjoint _⟩
  owned := Set.empty_subset _
  kept _ hb := hb

/-! ## What is the same -/

/-- The operations that answer, on the pool and on the objects of the client. -/
inductive Asks (s : Session) : {α : Type} → Op α → Prop
  | allocate (count : Nat) : Asks s (Op.allocate count)
  | allocateCleared (count : Nat) : Asks s (Op.allocateCleared count)
  | allocatePages (count : Nat) : Asks s (Op.allocateKernelPages count)
  | free (a : PhysicalAddress) : Asks s (Op.free a)
  | read {i : Nat} {kind : CellKind} {c : FrameCell kind.Value}
      (ho : s.object i = some (.cell kind c)) : Asks s c.read
  | openSlot {i : Nat} {o : Object} {t : PageTable} (ho : s.object i = some o)
      (ht : o.table? = some t) (slot : Nat) : Asks s (t.openSlot slot)
  | mapPage {i : Nat} {o : Object} {t : PageTable} (ho : s.object i = some o)
      (ht : o.table? = some t) (slot entry : Nat) (writable : Bool) :
      Asks s (t.mapPage slot entry writable)
  | writeProtect {i : Nat} {o : Object} {t : PageTable} (ho : s.object i = some o)
      (ht : o.table? = some t) (a : VirtualAddress) : Asks s (t.writeProtect a)
  | translate {i : Nat} {o : Object} {t : PageTable} (ho : s.object i = some o)
      (ht : o.table? = some t) (a : VirtualAddress) : Asks s (t.translate a)
  | mappings {i : Nat} {o : Object} {t : PageTable} (ho : s.object i = some o)
      (ht : o.table? = some t) : Asks s t.mappings

/-- Whatever a client can get to see is the same in both sessions, if it knows what the blocks `C`
hold. -/
structure LooksAlike (p : FramePool) (C : Set Block) (s s' : Session) : Prop where
  objects_eq : s'.objects = s.objects
  blocks_eq : s'.blocks = s.blocks
  log_eq : s'.kernel.log = s.kernel.log
  /-- All slots of the TLB are the same. -/
  mmu_eq : s'.mmu = s.mmu
  record_eq : ∀ i < p.total, p.record s'.kernel.ram i = p.record s.kernel.ram i
  slot_eq : ∀ i o t, s.object i = some o → o.table? = some t → ∀ slot,
    t.slotIn s'.kernel.ram slot = t.slotIn s.kernel.ram slot
  entry_eq : ∀ i o t, s.object i = some o → o.table? = some t → ∀ a,
    t.entryIn s'.kernel.ram a = t.entryIn s.kernel.ram a
  /-- The bytes of resident pages are the same. -/
  page_eq : ∀ i o t, s.object i = some o → o.table? = some t → ∀ a f,
    (t.entryIn s.kernel.ram a).frame? = some f →
      ∀ n < pageSize, s'.kernel.ram.byte (f.val + n) = s.kernel.ram.byte (f.val + n)
  value_eq : ∀ i kind (c : FrameCell kind.Value), s.object i = some (.cell kind c) →
    (Stored.load s'.kernel.ram c.frame.val : kind.Value) = Stored.load s.kernel.ram c.frame.val
  /-- The same is found in cells when those that they hold are followed to the end. -/
  content_eq : ∀ i kind (c : FrameCell kind.Value), s.object i = some (.cell kind c) →
    c.contentIn s'.kernel.ram = c.contentIn s.kernel.ram
  known_eq : ∀ b ∈ C, ∀ n, n / pageSize ∈ b → s'.kernel.ram.byte n = s.kernel.ram.byte n
  /-- All answers are the same. -/
  answer_eq : ∀ (α : Type) (x : Op α), s.Asks x →
    (x.run s.kernel).SameAnswer (x.run s'.kernel)

/-- The sessions look alike, and what is asked for next comes to the same, and they look alike again.
-/
structure StaysAlike (p : FramePool) (C : Set Block) (s s' : Session) : Prop extends
    s.LooksAlike p C s' where
  permitted_iff : ∀ r : Request, r.Permitted p s' ↔ r.Permitted p s
  perform : ∀ r : Request, r.Permitted p s →
    (Session.perform r).Tracks (fun t t' => t.LooksAlike p (r.known s C t) t') s s'

namespace Shadows

variable (h : s.Shadows p X C s')
include h

theorem sameAnswer {α : Type} {x : Op α} (hx : s.Asks x) :
    (x.run s.kernel).SameAnswer (x.run s'.kernel) := by
  have hk := h.alike.kernel
  have hholds := h.sound.holds_owned
  cases hx with
  | allocate count => exact (hk.allocate hholds count).sameAnswer
  | allocateCleared count => exact (hk.allocateCleared hholds count).sameAnswer
  | allocatePages count => exact (hk.allocateKernelPages hholds count).sameAnswer
  | free a => exact (hk.free hholds a).sameAnswer
  | read ho =>
    obtain ⟨haligned, hcell⟩ := h.sound.take_cell ho
    exact (FrameCell.reads_read hk haligned hcell (h.conceals.objects _ _ ho)).sameAnswer
  | openSlot ho ht slot => exact ((h.heldAlike ho ht).tracks_openSlot slot).sameAnswer
  | mapPage ho ht slot entry writable =>
    exact ((h.heldAlike ho ht).tracks_mapPage slot entry writable).sameAnswer
  | writeProtect ho ht a => exact ((h.heldAlike ho ht).tracks_writeProtect a).sameAnswer
  | translate ho ht a =>
    have hheld := h.heldAlike ho ht
    rw [hheld.held.run_translate, hheld.right.run_translate]
    exact .done trivial
  | mappings ho ht => exact (h.heldAlike ho ht).reads_mappings.sameAnswer

theorem looksAlike : s.LooksAlike p C s' where
  objects_eq := h.alike.objects_eq
  blocks_eq := h.alike.blocks_eq
  log_eq := h.alike.kernel.log_eq
  mmu_eq := h.alike.mmu_eq
  record_eq _ hi := h.alike.kernel.record_eq h.sound.holds.sound hi
  slot_eq i o t ho ht j := by
    have hheld := h.heldAlike ho ht
    rw [hheld.held.shows.slotIn_eq, hheld.right.shows.slotIn_eq]
  entry_eq i o t ho ht a := by
    have hheld := h.heldAlike ho ht
    rw [hheld.held.shows.entryIn_eq, hheld.right.shows.entryIn_eq]
  page_eq i o t ho ht a f hf n hn := by
    have hheld := (h.heldAlike ho ht).held
    obtain ⟨pg, hpg, rfl⟩ := hheld.page_of_frame? hf
    rw [val_frameAt (hheld.holds.frame_lt (hheld.page_mem hpg))]
    refine h.shown_eq ho _ ?_
    rw [Object.shownIn_of_table? ht, mem_bytesOf]
    have hdiv : (pg.frame * pageSize + n) / pageSize = pg.frame := by
      simp only [pageSize] at *
      omega
    rw [hdiv]
    exact t.page_mem_blocks hpg
  value_eq i kind c ho := FrameCell.load_eq_of_shown (h.shown_eq ho)
  content_eq i kind c ho := (FrameCell.congr_of_shown (h.shown_eq ho)).2.1
  known_eq b hb n hn := by
    have hmem : n ∈ bytesOf [b] := by simpa [bytesOf] using hn
    have hblock := h.kept b hb
    refine h.alike.kernel.byte_eq n (fun hX => ?_) fun hvacant => ?_
    · exact Set.disjoint_left.1 (h.conceals.blocks b hblock hb) hX hmem
    · rw [h.sound.holds_owned.vacant_iff] at hvacant
      exact hvacant.2.2 (mem_owned.2 (.inl ⟨b, hblock, hn⟩))
  answer_eq _ _ hx := h.sameAnswer hx

/-! ## One request -/

/-- A permitted request comes to the same in both sessions, and they look alike afterwards. -/
theorem tracks_request (hr : r.Permitted p s) :
    (perform r).Tracks (fun t t' => ∃ Y, t.Shadows p Y (r.known s C t) t') s s' := by
  by_cases hclears : r.Clears
  · cases r with
    | allocateCleared count =>
      refine tracks_of_leads (h.tracks_allocateCleared count) fun t _ hl ht => ?_
      have hknown : ∀ b ∈ Request.known (.allocateCleared count) s C t,
          b ∈ C ∪ {b | b ∉ s.blocks} := fun _ hb => hb.2.imp id And.right
      exact (ht.mono hknown).shadows (h.sound.of_leads hr hl) fun _ hb => hb.1
    | _ => exact hclears.elim
  · have htracks := h.tracks_perform hr fun count heq => hclears (heq ▸ trivial)
    refine tracks_of_leads htracks fun t _ hl ht => ?_
    have hknown : ∀ b ∈ r.known s C t, b ∈ C := fun _ hb =>
      hb.2.resolve_right fun hnew => hclears hnew.1
    exact (ht.mono hknown).shadows (h.sound.of_leads hr hl) fun _ hb => hb.1

/-- The objects own the same. -/
theorem congr_of_mem (ho : some o ∈ s.objects) :
    o.blocksIn s'.kernel.ram = o.blocksIn s.kernel.ram ∧
      o.skeletonIn s'.kernel.ram = o.skeletonIn s.kernel.ram := by
  obtain ⟨i, hi⟩ := List.mem_iff_getElem?.1 ho
  have hobject := object_eq_some.2 hi
  exact Object.congr_of_shown (h.shown_eq hobject) (h.sound.take hobject).2

theorem objectBlocks_eq : s'.objectBlocks = s.objectBlocks := by
  unfold objectBlocks
  rw [h.alike.objects_eq]
  refine List.flatMap_congr fun o? ho => ?_
  cases o? with
  | none => rfl
  | some o => exact (h.congr_of_mem ho).1

theorem skeleton_eq : s'.skeleton = s.skeleton := by
  ext f
  unfold skeleton
  rw [h.alike.objects_eq]
  refine exists_congr fun o => and_congr_right fun ho => ?_
  rw [(h.congr_of_mem ho).2]

/-- What is permitted on one of the sessions is permitted on the other. -/
theorem permitted_iff (r : Request) : r.Permitted p s' ↔ r.Permitted p s := by
  unfold Request.Permitted
  rw [h.objectBlocks_eq, h.skeleton_eq, h.alike.kernel.directMap_eq]

theorem staysAlike : s.StaysAlike p C s' where
  toLooksAlike := h.looksAlike
  permitted_iff := h.permitted_iff
  perform _ hr := tracks_of_leads (h.tracks_request hr) fun _ _ _ hY =>
    hY.elim fun _ ht => ht.looksAlike

end Shadows

/-! ## Any number of requests -/

/-- The client knows the same blocks on both sides. -/
theorem Alike.known_eq {t t' : Session} (h : s.Alike p X s') (ht : t.Alike p Y t') :
    r.known s' C t' = r.known s C t := by
  unfold Request.known
  rw [h.blocks_eq, ht.blocks_eq]

/-- What was asked for in the one session can be asked for in the other, and comes to the same. -/
theorem Serves.shadowed (hstart : s.Shadows p X {b | b ∈ s.blocks} s')
    (hserves : s.Serves p asked C s₁) :
    ∃ s₁' Y, s'.Serves p asked C s₁' ∧ s₁.Shadows p Y C s₁' := by
  induction hserves with
  | start => exact ⟨s', X, hstart.alike.blocks_eq ▸ .start, hstart⟩
  | @granted trace C t r t₁ _ hr hrun ih =>
    obtain ⟨t', Y, hserves', ht⟩ := ih
    obtain ⟨t₁', hrun', Y₁, ht₁⟩ := Outcome.Matches.exists_done (ht.tracks_request hr) hrun
    have hknown : r.known t' C t₁' = r.known t C t₁ := ht.alike.known_eq ht₁.alike
    exact ⟨t₁', Y₁, hknown ▸ hserves'.granted ((ht.permitted_iff r).2 hr) hrun', ht₁⟩
  | @refused trace C t r cause t₁ _ hr hrun ih =>
    obtain ⟨t', Y, hserves', ht⟩ := ih
    obtain ⟨t₁', hrun', Y₁, ht₁⟩ := Outcome.Matches.exists_refused (ht.tracks_request hr) hrun
    have hknown : r.known t' C t₁' = r.known t C t₁ := ht.alike.known_eq ht₁.alike
    exact ⟨t₁', Y₁, hknown ▸ hserves'.refused ((ht.permitted_iff r).2 hr) hrun', ht₁⟩

/-- What free frames hold never shows, whatever is asked for and however it is answered. -/
theorem stale_memory_never_leaks {ram' : Ram} (hboot : s₀.Booted p)
    (hruns : Runs (fun s r => r.Permitted p s) s₀ trace s)
    (hfree : s.kernel.ram.SameButFree p ram') (hserves : s.Serves p asked C s₁) :
    ∃ s₁', (s.withRam ram').Serves p asked C s₁' ∧ s₁.StaysAlike p C s₁' := by
  have hsound := hruns.sound (fun _ _ hr => hr) hboot.sound
  obtain ⟨s₁', Y, hserves', h⟩ := hserves.shadowed (hsound.shadows hfree)
  exact ⟨s₁', hserves', h.staysAlike⟩

/-! ## A small machine -/

theorem run_allocateCleared {count : Nat} {a : PhysicalAddress} {k : Kernel}
    (hx : (Op.allocateCleared count).run s.kernel = .done a k) :
    (perform (.allocateCleared count)).run s =
      .done () { s.withKernel k with blocks := ⟨a.number.val, count⟩ :: s.blocks } := by
  have hrun : (perform (.allocateCleared count)).run s =
      ((op (Op.allocateCleared count)).run s).andThen fun a t => (lend count a).run t := rfl
  rw [hrun, run_op_of_done hx]
  rfl

/-- While a frame is free, one is handed out cleared. -/
theorem Sound.allocateCleared_done (h : s.Sound p) (hfree : 0 < p.freeFrames s.kernel.ram) :
    ∃ f s₁, f ∈ p.spare s.owned ∧ (perform (.allocateCleared 1)).run s = .done () s₁ ∧
      s₁.blocks = ⟨f, 1⟩ :: s.blocks := by
  have hholds := h.holds_owned
  rcases p.spare_cases s.owned with hnone | ⟨f, hf⟩
  · rw [hholds.represents.freeFrames_of_full hnone] at hfree
    exact absurd hfree (Nat.lt_irrefl 0)
  have hframe := (hholds.lend hf).frame_lt (mem_framesOf_self f s.owned)
  have hrun := run_allocateCleared (hholds.run_allocateCleared hf)
  rw [number_frameAt hframe] at hrun
  exact ⟨f, _, hf.1, hrun, rfl⟩

/-- On eight pages of RAM, a program has a page of its stack, and another byte is put into the free
frame that is handed out next. The client asks for that cleared, so it knows what it holds. -/
theorem eight_pages_never_leak : ∃ (s₀ s s₁ s₁' : Session) (ram' : Ram) (C : Set Block) (b : Block)
    (n : Nat), s₀.Booted (pages 8) ∧
      Runs (fun s r => r.Permitted (pages 8) s) s₀
        [(.newSpace, true), (.fault (some 0) 0 stackPage, true)] s ∧
      s.kernel.ram.SameButFree (pages 8) ram' ∧ ram'.byte n ≠ s.kernel.ram.byte n ∧
      s.Serves (pages 8) [(.allocateCleared 1, none)] C s₁ ∧
      (s.withRam ram').Serves (pages 8) [(.allocateCleared 1, none)] C s₁' ∧
        b ∈ C ∧ n / pageSize ∈ b ∧ s₁.StaysAlike (pages 8) C s₁' := by
  obtain ⟨s₀, s, sp, hboot, hruns, ho, -, hfrees⟩ := exists_resident (n := 8) (by decide) (by decide)
  have hsound := hruns.sound (fun _ _ hr => hr) hboot.sound
  obtain ⟨f, s₁, hspare, hcleared, hblocks⟩ := hsound.allocateCleared_done (hfrees ▸ by decide)
  have hdiv : f * pageSize / pageSize = f := Nat.mul_div_cancel f (by decide)
  have hvacant : (pages 8).Vacant s.kernel.ram (f * pageSize) := by
    rw [hsound.holds_owned.vacant_iff, hdiv]
    exact hspare
  have hinside : f * pageSize < s.kernel.ram.size :=
    (Nat.mul_lt_mul_of_pos_right hspare.2.1 (by decide)).trans_le hsound.holds_owned.ram_ge
  have hfree := Ram.sameButFree_store hvacant (s.kernel.ram.byte (f * pageSize) + 1)
  have hstart : s.Serves (pages 8) [] {b | b ∈ s.blocks} s := .start
  have hserves := hstart.granted (r := .allocateCleared 1) trivial hcleared
  obtain ⟨s₁', hserves', halike⟩ := stale_memory_never_leaks hboot hruns hfree hserves
  refine ⟨s₀, s, s₁, s₁', _, _, ⟨f, 1⟩, f * pageSize, hboot, hruns, hfree, ?_, hserves, hserves', ?_,
    ?_, halike⟩
  · rw [Ram.byte_store, if_pos ⟨rfl, hinside⟩]
    exact fun heq => absurd (add_eq_left.1 heq) (by decide)
  · refine ⟨hblocks ▸ List.mem_cons_self, .inr ⟨trivial, fun hmem => hspare.2.2 ?_⟩⟩
    exact mem_owned.2 (.inl ⟨_, hmem, Block.mem_one.2 rfl⟩)
  · rw [hdiv]
    exact Block.mem_one.2 rfl

end Session

end SoftPaging
