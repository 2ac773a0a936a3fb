import Mathlib
import SoftPaging.Proofs.Session.Frames
import SoftPaging.Proofs.Session.Tables

/-!
# Writing to memory

An act writes to the frames it works on, to frames that were spare, and to the records of the pool
(`Session.Wrote`). Which records change is told by the books: as long as a frame stays in the block it
is in, its record changes only when the frame is handed out or taken back (`SameBooks.isFree_ne`).
Frames stay in their blocks because an act enters blocks, or strikes blocks out, or works on objects,
whose blocks have one frame each.

There is one rule for each shape an act has (`Session.Confines`).
-/

namespace SoftPaging

open Outcome

/-- An operation writes to the frames `F` and to records only, however it ends. -/
abbrev Kernel.Confines {α : Type} (k : Kernel) (p : FramePool) (F : Set Nat)
    (out : Outcome Refusal Kernel α) : Prop :=
  out.Meets (fun _ k' => Kernel.Touches p F k k') (fun _ k' => Kernel.Touches p F k k') fun _ => True

namespace Session

variable {p : FramePool} {s s' : Session} {i : Nat} {o : Object} {t : PageTable} {F : Set Nat}
  {k' : Kernel} {α : Type}

/-- The frames that hold the cells or the tables of the object at a place, if one is meant. -/
def skeletonAt (s : Session) (i? : Option Nat) : Set Nat :=
  {f | ∃ i ∈ i?, ∃ o, s.object i = some o ∧ f ∈ o.skeletonIn s.kernel.ram}

theorem skeletonAt_some (ho : s.object i = some o) :
    s.skeletonAt (some i) = o.skeletonIn s.kernel.ram := by
  ext f
  simp [skeletonAt, ho]

/-- What an operation on the page table of an object may write to, seen from the session. -/
theorem frames_eq (ho : s.object i = some o) (ht : o.table? = some t) :
    s.skeletonAt (some i) ∪ p.spare s.owned =
      t.skeleton (t.mapIn s.kernel.ram) ∪
        p.spare (t.blocks (t.mapIn s.kernel.ram) ++ (s.put i none).owned) := by
  rw [skeletonAt_some ho, Object.skeletonIn_of_table? ht, p.spare_perm (owned_perm ho ht)]

/-- The client has the blocks it had, or blocks were entered, or blocks were struck out. -/
def SameBooks (s s' : Session) : Prop :=
  s'.blocks = s.blocks ∨ s.owned ⊆ s'.owned ∨ s'.owned ⊆ s.owned

/-- Memory was written to in the frames `F`, in spare frames and in the records, and nowhere else. -/
structure Wrote (p : FramePool) (F : Set Nat) (s s' : Session) : Prop where
  touches : Kernel.Touches p (F ∪ p.spare s.owned) s.kernel s'.kernel
  books : s.SameBooks s'

/-! ## Blocks and records -/

theorem mem_blocks_or_one {b : Block} (hb : b ∈ s.owned) : b ∈ s.blocks ∨ b.count = 1 := by
  rcases List.mem_append.1 hb with hblock | hobject
  · exact .inl hblock
  · obtain ⟨o?, -, hb⟩ := List.mem_flatMap.1 hobject
    cases o? with
    | none => cases hb
    | some o => exact .inr (Object.count_eq_one hb)

/-- A frame that is in a block before and after is in the same block. -/
theorem SameBooks.eq_of_mem (h : s.SameBooks s') (hs : s.Sound p) (hs' : s'.Sound p) {b b' : Block}
    (hb : b ∈ s.owned) (hb' : b' ∈ s'.owned) {f : Nat} (hf : f ∈ b) (hf' : f ∈ b') : b = b' := by
  have hbefore := hs.holds_owned.represents
  have hafter := hs'.holds_owned.represents
  rcases h with hblocks | hmore | hfewer
  · rcases mem_blocks_or_one hb with hclient | hone
    · rw [← hblocks] at hclient
      exact hafter.eq_of_mem (List.mem_append_left _ hclient) hb' hf hf'
    rcases mem_blocks_or_one hb' with hclient | hone'
    · rw [hblocks] at hclient
      exact hbefore.eq_of_mem hb (List.mem_append_left _ hclient) hf hf'
    · -- both are the block of this one frame
      obtain ⟨first, count⟩ := b
      obtain ⟨first', count'⟩ := b'
      obtain rfl : count = 1 := hone
      obtain rfl : count' = 1 := hone'
      rw [← Block.mem_one.1 hf, ← Block.mem_one.1 hf']
  · exact hafter.eq_of_mem (hmore hb) hb' hf hf'
  · exact hbefore.eq_of_mem hb (hfewer hb') hf hf'

/-- The record of a frame changes only when the frame is handed out or taken back. -/
theorem SameBooks.isFree_ne (h : s.SameBooks s') (hs : s.Sound p) (hs' : s'.Sound p) {f : Nat}
    (hf : f < p.total) (hne : p.record s'.kernel.ram f ≠ p.record s.kernel.ram f) :
    p.isFree s'.kernel.ram f ≠ p.isFree s.kernel.ram f :=
  hs.holds_owned.represents.isFree_ne hs'.holds_owned.represents hf
    (fun _ hb _ hb' => h.eq_of_mem hs hs' hb hb') hne

/-! ## Acts -/

/-- An act writes to the frames `F`, to spare frames and to records only, however it ends. -/
abbrev Confines (p : FramePool) (F : Set Nat) (s : Session) (out : Outcome Refusal Session α) : Prop :=
  out.Meets (fun _ s' => s.Wrote p F s') (fun _ s' => s.Wrote p F s') fun _ => True

theorem confines_idle {a : α} : s.Confines p F (.done a s) :=
  .done ⟨Kernel.Touches.refl p _ s.kernel, .inl rfl⟩

/-- An operation, also one that is run when an object was taken off the client. -/
theorem confines_op {s₁ : Session} {x : Op α} (hkernel : s₁.kernel = s.kernel)
    (hblocks : s₁.blocks = s.blocks)
    (hx : s.kernel.Confines p (F ∪ p.spare s.owned) (x.run s.kernel)) :
    s.Confines p F ((op x).run s₁) := by
  rw [← hkernel] at hx
  refine op_meets (hx.mono ?_ ?_ fun _ hH => hH)
  · intro _ k htouches
    exact ⟨hkernel ▸ htouches, .inl hblocks⟩
  · intro _ k htouches
    exact ⟨hkernel ▸ htouches, .inl hblocks⟩

/-- Making an object writes to spare frames. -/
theorem confines_make {s₁ : Session} (object : α → Object) {x : Op α}
    (hkernel : s₁.kernel = s.kernel) (hblocks : s₁.blocks = s.blocks)
    (hx : s.kernel.Confines p (p.spare s.owned) (x.run s.kernel)) :
    s.Confines p F ((make object x).run s₁) := by
  have hsub : p.spare s.owned ⊆ F ∪ p.spare s.owned := Set.subset_union_right
  rw [← hkernel] at hx
  refine Outcome.Meets.andThen (op_meets (hx.mono ?_ ?_ fun _ hH => hH))
  · intro a k htouches
    exact .done ⟨hkernel ▸ htouches.mono hsub, .inl hblocks⟩
  · intro _ k htouches
    exact ⟨hkernel ▸ htouches.mono hsub, .inl hblocks⟩

/-- Working on a page table writes to its tables and to spare frames. -/
theorem Sound.confines_onTable (h : s.Sound p) {f : PageTable → Op Unit}
    (hf : ∀ t m rest, t.Held s.kernel p m rest →
      s.kernel.Confines p (t.skeleton m ∪ p.spare (t.blocks m ++ rest)) ((f t).run s.kernel)) :
    s.Confines p (s.skeletonAt (some i)) ((onTable i f).run s) := by
  rw [run_onTable]
  cases htable : (s.object i).bind Object.table? with
  | none => exact confines_idle
  | some t =>
    obtain ⟨o, ho, ht⟩ := Option.bind_eq_some_iff.1 htable
    apply confines_op rfl rfl
    rw [frames_eq ho ht]
    exact hf t _ _ (h.held ho ht)

/-- Working on an address space does the same to the page table of the space. -/
theorem Sound.confines_onSpace (h : s.Sound p)
    {f : AddressSpace → Mmu TlbBuffer → Op (AddressSpace × Mmu TlbBuffer)}
    (hf : ∀ sp m rest, sp.Sound → sp.table.Held s.kernel p m rest →
      s.kernel.Confines p (sp.table.skeleton m ∪ p.spare (sp.table.blocks m ++ rest))
        ((f sp s.mmu).run s.kernel)) :
    s.Confines p (s.skeletonAt (some i)) ((onSpace i f).run s) := by
  rcases s.space_cases i with ⟨sp, ho⟩ | hspace
  · have hwrites := hf sp _ _ (h.take ho).2.1 (h.held ho rfl)
    rw [run_onSpace ho]
    rw [← frames_eq ho (t := sp.table) rfl] at hwrites
    refine Outcome.Meets.andThen (op_meets (hwrites.mono ?_ ?_ fun _ hH => hH))
    · intro after k htouches
      exact .done ⟨htouches, .inl rfl⟩
    · intro _ k htouches
      exact ⟨htouches, .inl rfl⟩
  · rw [run_onSpace_of_no_space hspace]
    exact confines_idle

/-- Consuming an object. -/
theorem confines_consume {x : Object → Option (Act Unit)}
    (hx : ∀ o act, s.object i = some o → x o = some act → s.Confines p F (act.run (s.put i none))) :
    s.Confines p F ((consume i x).run s) := by
  rw [run_consume]
  cases ho : s.object i with
  | none => exact confines_idle
  | some o =>
    rw [Option.bind_some]
    cases hact : x o with
    | none => exact confines_idle
    | some act => exact hx o act ho hact

/-! ## Frames -/

/-- A block that was handed out is entered. -/
theorem Sound.confines_lend (h : s.Sound p) {count : Nat} {a : PhysicalAddress}
    (hout : s.kernel.HandsOut p s.owned count a k') :
    s.Confines p F ((lend count a).run (s.withKernel k')) := by
  refine .done ⟨hout.touches.mono Set.subset_union_right, .inr (.inl ?_)⟩
  have hobjects : (s.withKernel k').objectBlocks = s.objectBlocks :=
    h.objectBlocks_withKernel fun f hf =>
      hout.same f (mem_owned_of_object (s.skeleton_subset hf))
  have howned : (Session.mk k' s.mmu (⟨a.number.val, count⟩ :: s.blocks) s.objects).owned =
      ⟨a.number.val, count⟩ :: s.owned := congrArg (fun bs => _ :: (s.blocks ++ bs)) hobjects
  exact fun b hb => howned ▸ List.mem_cons_of_mem _ hb

/-- A block that was taken back is struck out. -/
theorem Sound.confines_giveBack (h : s.Sound p) {a : PhysicalAddress}
    (htook : s.kernel.TakesBack p s.owned a k') :
    s.Confines p F ((giveBack a).run (s.withKernel k')) := by
  refine .done ⟨htook.touches.mono (Set.empty_subset _), .inr (.inr ?_)⟩
  have hobjects : (s.withKernel k').objectBlocks = s.objectBlocks :=
    h.objectBlocks_withKernel fun f hf =>
      htook.same f (mem_owned_of_object (s.skeleton_subset hf))
  have howned : (Session.mk k' s.mmu (s.blocks.eraseP (·.first = a.number.val)) s.objects).owned =
      s.blocks.eraseP (·.first = a.number.val) ++ s.objectBlocks :=
    congrArg (_ ++ ·) hobjects
  intro b hb
  replace hb : b ∈ s.blocks.eraseP (·.first = a.number.val) ++ s.objectBlocks := howned ▸ hb
  rcases List.mem_append.1 hb with hblock | hobject
  · exact List.mem_append_left _ (List.mem_of_mem_eraseP hblock)
  · exact List.mem_append_right _ hobject

end Session

end SoftPaging
