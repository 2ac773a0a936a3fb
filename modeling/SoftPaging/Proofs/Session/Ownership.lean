import Mathlib
import SoftPaging.Proofs.Pool.Boot
import SoftPaging.Proofs.Session.Sufficing

/-!
# Who owns which frame

On a machine that was set up, every frame the pool manages is either free or has one owner: a block
of the client, a cell, a directory, a second-level table, or a page of one table
(`Session.Accounted`). This holds after every run of permitted requests, whether they were granted or
refused, and it is why no object is ever refused what it gives back (`runs_accounted`).
-/

namespace SoftPaging

open Outcome

namespace Session

variable {p : FramePool} {s s₀ : Session} {P : Session → Request → Prop}
  {trace : List (Request × Bool)}

/-! ## Machines that were set up -/

theorem Booted.owned_eq (h : s.Booted p) : s.owned = [] := by
  unfold owned objectBlocks
  rw [h.blocks_eq, h.objects_eq]
  rfl

/-- Nothing is owned on a machine that was just set up, and the pool has handed nothing out. -/
theorem Booted.sound (h : s.Booted p) : s.Sound p := by
  obtain ⟨base, size, ramSize, firstFree, k, hram, hpool, hsize⟩ := h.kernel_eq
  obtain ⟨-, hlayout, hsound, hk⟩ := bootPool_done hpool
  obtain rfl := installRam_done hram
  have htotal : p.total * pageSize ≤ size := by
    rw [hlayout]
    exact Nat.le_trans (Nat.div_mul_le_self _ _) hsize
  have hfits : p.FitsIn (Ram.zeroed size) := by
    have hrecords := hsound.records_le
    have hreserved : p.reserved * pageSize ≤ p.total * pageSize :=
      Nat.mul_le_mul_right pageSize hsound.reserved_lt.le
    unfold FramePool.FitsIn
    rw [Ram.size_zeroed]
    omega
  refine ⟨⟨?_, ⟨.window base size, ?_, DirectMap.covers_window base htotal⟩, ?_⟩, ?_⟩
  · rw [h.owned_eq]
    exact bootPool_lends hpool hfits
  · rw [hk]
    simp [Kernel.withPool, Kernel.setUp]
  · rw [hk]
    simp [Kernel.withPool, Kernel.setUp, htotal]
  · intro o ho
    rw [h.objects_eq] at ho
    cases ho

/-- Nothing is seen on a machine that was just set up. -/
theorem Booted.scene_eq (h : s.Booted p) : s.scene = [] := by
  unfold scene
  rw [h.objects_eq]
  rfl

/-- A session stays sound over every run of permitted requests. -/
theorem Runs.sound (h : Runs P s₀ trace s) (hP : ∀ s r, P s r → r.Permitted p s)
    (hs₀ : s₀.Sound p) : s.Sound p := by
  induction h with
  | start => exact hs₀
  | granted _ hr hrun ih => exact ((ih.perform_meets (hP _ _ hr)).of_done hrun).sound
  | refused _ hr hrun ih => exact ((ih.perform_meets (hP _ _ hr)).of_refused hrun).sound

/-! ## The account of all frames -/

/-- Each frame that the pool manages is free or has one owner. -/
structure Accounted (p : FramePool) (s : Session) : Prop where
  within : ∀ b ∈ s.owned, b.Within p
  apart : s.owned.Pairwise Block.Apart
  allocated : ∀ i ∈ framesOf s.owned, (p.record s.kernel.ram i).isAllocated = true
  /-- No frame is lost. -/
  free : ∀ i, p.reserved ≤ i → i < p.total → i ∉ framesOf s.owned →
    p.isFree s.kernel.ram i = true
  counts : p.reserved + p.allocatedFrames s.kernel.ram + p.freeFrames s.kernel.ram = p.total
  allocated_eq : p.allocatedFrames s.kernel.ram = (s.owned.map Block.count).sum

theorem Sound.accounted (h : s.Sound p) : s.Accounted p := by
  have hrepresents := h.holds_owned.represents
  refine ⟨hrepresents.within, hrepresents.apart, fun i hi => ?_, fun i hlow hhigh hout => ?_, ?_, ?_⟩
  · exact (hrepresents.allocated_iff i (hrepresents.frame_bounds hi).2).2 (.inr hi)
  · exact (hrepresents.isFree_iff hhigh).2 ⟨hlow, hout⟩
  · exact hrepresents.count_partition h.holds.sound.reserved_lt.le
  · exact hrepresents.allocatedFrames_eq

/-! ## Giving back -/

/-- A block that the client was handed out can be given back. -/
theorem Sound.mustFree_done (h : s.Sound p) {b : Block} (hb : b ∈ s.blocks) :
    ∃ s', (perform (.mustFree (frameAt b.first))).run s = .done () s' := by
  have hperm := List.perm_cons_erase (List.mem_append_left s.objectBlocks hb)
  have hfree := run_op_of_done (s := s) (h.holds_owned.perm hperm).run_freeOwned
  have hrun : (perform (.mustFree (frameAt b.first))).run s =
      ((op (Op.freeOwned (frameAt b.first))).run s).andThen fun _ s' =>
        (giveBack (frameAt b.first)).run s' := rfl
  rw [hfree] at hrun
  exact ⟨_, hrun⟩

/-- Every object can be given back. -/
theorem Sound.release_done (h : s.Sound p) (i : Nat) :
    ∃ s', (perform (.release i)).run s = .done () s' := by
  have hrun : (perform (.release i)).run s = _ := run_consume _
  cases ho : s.object i with
  | none =>
    rw [ho] at hrun
    exact ⟨_, hrun⟩
  | some o =>
    rw [ho] at hrun
    obtain ⟨_, s', hdone, -⟩ :=
      (h.op_release (R := fun _ _ => False) (H := never) ho).exists_done
    exact ⟨s', hrun.trans hdone⟩

/-- What the client was handed out, and what it made, it can give back, and no frame is given back
twice. -/
structure Returnable (p : FramePool) (s : Session) : Prop where
  block : ∀ b ∈ s.blocks, ∃ s', (perform (.mustFree (frameAt b.first))).run s = .done () s'
  object : ∀ i, ∃ s', (perform (.release i)).run s = .done () s'
  /-- Only the client itself can run into the halt of `freeOwned`. -/
  request : ∀ r cause, r.Permitted p s → ¬ r.MustFree → (perform r).run s = .halted cause →
    ¬ cause.FreeRefused

theorem Sound.returnable (h : s.Sound p) : s.Returnable p where
  block _ hb := h.mustFree_done hb
  object := h.release_done
  request _ _ hr hfree hrun := ((h.perform_meets hr).of_halted hrun).resolve_left hfree

/-- Whatever the client did, each frame has one owner or is free, and all can be given back. -/
theorem runs_accounted (hboot : s₀.Booted p)
    (hruns : Runs (fun s r => r.Permitted p s) s₀ trace s) : s.Accounted p ∧ s.Returnable p := by
  have hsound := hruns.sound (fun _ _ hr => hr) hboot.sound
  exact ⟨hsound.accounted, hsound.returnable⟩

/-! ## A small machine -/

/-- All frames are free on a machine that was just set up, but those of the records. -/
theorem Booted.freeFrames_eq (h : s.Booted p) :
    p.freeFrames s.kernel.ram = p.total - p.reserved := by
  have hsound := h.sound
  rw [hsound.holds_owned.represents.freeFrames_eq hsound.holds.sound.reserved_lt.le, h.owned_eq]
  rfl

theorem Booted.hasRoom (h : s.Booted p) {b : Block} (hb : b.Within p) :
    p.HasRoom s.kernel.ram b :=
  (h.owned_eq ▸ h.sound.holds_owned.represents).hasRoom_of_nil hb

/-- The pool over `n` pages of RAM, of which the first holds the records. -/
def pages (n : Nat) : FramePool := ⟨0, n, 1⟩

theorem layout_pages {n : Nat} (hpos : 0 < n) (hle : n ≤ pageSize) :
    FramePool.layout (n * pageSize) 0 = pages n := by
  have hram : n * pageSize ≤ maxRam := by
    simp only [pageSize, maxRam] at *
    omega
  have htotal : min (n * pageSize) maxRam / pageSize = n := by
    rw [Nat.min_eq_left hram, Nat.mul_div_cancel _ (by decide)]
  have hreserved : framesFor (0 + n) = 1 := by
    unfold framesFor
    simp only [pageSize] at *
    omega
  unfold FramePool.layout pages
  rw [htotal]
  exact congrArg (FramePool.mk 0 n) hreserved

/-- A few pages of RAM can be set up. -/
theorem exists_booted {n : Nat} (hlarge : 1 < n) (hle : n ≤ pageSize) :
    ∃ s : Session, s.Booted (pages n) := by
  have hlayout := layout_pages (by omega) hle
  have hpos : 0 < n * pageSize := Nat.mul_pos (by omega) (by decide)
  have hwindow : n * pageSize ≤ DirectMap.largestWindow := by
    simp only [pageSize, DirectMap.largestWindow] at *
    omega
  have hram : (Op.installRam 0 (n * pageSize)).run .bare = .done () _ :=
    run_installRam rfl hpos (Nat.mul_mod_left _ _) hwindow
  have hroom : (FramePool.layout (n * pageSize) 0).reserved <
      (FramePool.layout (n * pageSize) 0).total := by
    rw [hlayout]
    exact hlarge
  obtain ⟨k, hpool⟩ : ∃ k, (Op.bootPool (n * pageSize) 0).run
      ⟨Ram.zeroed (n * pageSize), some (.window 0 (n * pageSize)), none, #[]⟩ =
        .done (pages n) k := by
    rw [← hlayout]
    refine ⟨_, run_bootPool rfl (Nat.mul_mod_left _ _) rfl hroom ?_⟩
    refine Op.run_reachFrame_of_covers ⟨_, ?_, DirectMap.covers_window 0 le_rfl⟩ hpos
    rw [Kernel.directMap?_announce]
  exact ⟨⟨_, ⟨.empty, .initial⟩, [], []⟩,
    ⟨⟨_, _, _, _, _, hram, hpool, Nat.min_le_left _ _⟩, rfl, rfl⟩⟩

/-- A space in which nothing is resident can be made first. -/
theorem exists_newSpace {n : Nat} (hlarge : 1 < n) (hle : n ≤ pageSize)
    (hP : ∀ s, P s .newSpace) : ∃ (s₀ s : Session) (sp : AddressSpace), s₀.Booted (pages n) ∧
      Runs P s₀ [(.newSpace, true)] s ∧ s.objects = [some (.space sp)] ∧
        sp.table.mapIn s.kernel.ram = .vacant ∧ (pages n).freeFrames s.kernel.ram = n - 2 := by
  obtain ⟨s₀, hboot⟩ := exists_booted hlarge hle
  have hfree : (pages n).freeFrames s₀.kernel.ram = n - 1 := hboot.freeFrames_eq
  obtain ⟨s, sp, hmade, -, hobjects, hvacant, hone⟩ := hboot.sound.newSpace_done (by omega)
  refine ⟨s₀, s, sp, hboot, Runs.start.granted (hP s₀) hmade, ?_, hvacant, by omega⟩
  rw [hobjects, hboot.objects_eq]
  rfl

/-- What is made first is at place 0. -/
theorem object_first {o : Object} (h : s.objects = [some o]) : s.object 0 = some o := by
  rw [object_eq_some, h]
  rfl

/-- The topmost page of the user stack. -/
def stackPage : VirtualAddress := ⟨userStackTop - pageSize, by decide⟩

theorem reaches_stackPage (sp : AddressSpace) : sp.Reaches stackPage :=
  ⟨by decide, .inr (by decide)⟩

/-- On eight pages of RAM, a client has a block of two frames, a cell, and a space with a page of its
stack. -/
theorem eight_pages_accounted : ∃ (s₀ s : Session) (first : Nat)
    (c : FrameCell CellKind.byte.Value) (sp : AddressSpace), s₀.Booted (pages 8) ∧
      Runs (fun s r => r.Permitted (pages 8) s) s₀ [(.allocate 2, true),
        (.newCell .byte (.byte 7), true), (.newSpace, true), (.fault (some 1) 0 stackPage, true)] s ∧
      s.blocks = [⟨first, 2⟩] ∧ s.objects = [some (.cell .byte c), some (.space sp)] ∧
        (sp.table.entryIn s.kernel.ram stackPage).isValid = true ∧
          s.Accounted (pages 8) ∧ s.Returnable (pages 8) := by
  obtain ⟨s₀, hboot⟩ := exists_booted (n := 8) (by decide) (by decide)
  have hfree₀ : (pages 8).freeFrames s₀.kernel.ram = 7 := hboot.freeFrames_eq
  have hruns₀ : Runs (fun s r => r.Permitted (pages 8) s) s₀ [] s₀ := .start
  obtain ⟨s₁, first, hlent, hblocks₁, hobjects₁, hfree₁⟩ :=
    hboot.sound.allocate_done (hboot.hasRoom (b := ⟨1, 2⟩) (by decide))
  have hruns₁ := hruns₀.granted (r := .allocate 2) trivial hlent
  have hsound₁ := hruns₁.sound (fun _ _ hr => hr) hboot.sound
  obtain ⟨s₂, c, hcell, hblocks₂, hobjects₂, hfree₂⟩ :=
    hsound₁.newCell_done (show (Datum.byte 7).value? .byte = some (7 : UInt8) from rfl) (by omega)
  have hone : frameCount (c.blocksIn s₂.kernel.ram) = 1 := rfl
  have hruns₂ := hruns₁.granted (r := .newCell .byte (.byte 7)) trivial hcell
  have hsound₂ := hruns₂.sound (fun _ _ hr => hr) hboot.sound
  obtain ⟨s₃, sp, hmade, hblocks₃, hobjects₃, hvacant, hfree₃⟩ := hsound₂.newSpace_done (by omega)
  have hruns₃ := hruns₂.granted (r := .newSpace) trivial hmade
  have hsound₃ := hruns₃.sound (fun _ _ hr => hr) hboot.sound
  have hobjects : s₃.objects = [some (.cell .byte c), some (.space sp)] := by
    rw [hobjects₃, hobjects₂, hobjects₁, hboot.objects_eq]
    rfl
  have ho : s₃.object 1 = some (.space sp) := by
    rw [object_eq_some, hobjects]
    rfl
  have hneed := hsound₃.need_of_vacant ho hvacant stackPage
  obtain ⟨s₄, hfault, hblocks₄, hobjects₄, hvalid, -⟩ :=
    hsound₃.fault_done ho Nat.zero_lt_two (reaches_stackPage sp) (by omega)
  have hruns := hruns₃.granted (r := .fault (some 1) 0 stackPage) trivial hfault
  refine ⟨s₀, s₄, first, c, sp, hboot, hruns, ?_, hobjects₄.trans hobjects, hvalid,
    runs_accounted hboot hruns⟩
  rw [hblocks₄, hblocks₃, hblocks₂, hblocks₁, hboot.blocks_eq]

end Session

end SoftPaging
