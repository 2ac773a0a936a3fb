import Mathlib
import SoftPaging.Proofs.Session.Acting

/-!
# Requests for frames

What a session comes to when its client asks for frames, gives them back, or writes to memory by
physical address. A block that is handed out or taken back is entered or struck out, and no object is
concerned. A byte may be written anywhere but to the records and to cells and tables; then the objects
are what they were, though a page may hold another byte.
-/

namespace SoftPaging

open Outcome

/-- The direct map may not reach an address, but that is no frame given back. -/
theorem DirectMap.reach_error {m : DirectMap} {a : PhysicalAddress} {cause : Halt}
    (h : m.reach a = .error cause) : ¬ cause.FreeRefused := by
  cases m with
  | segment offset =>
    change (do
      require ((a.val.toUInt64 + offset).toNat < addressLimit) .addressTooWide
      pure (a.val.toUInt64 + offset)) = Except.error cause at h
    cases hlt : decide ((a.val.toUInt64 + offset).toNat < addressLimit) with
    | true =>
      rw [hlt, require_true] at h
      cases h
    | false =>
      rw [hlt, require_false] at h
      cases h
      exact id
  | window base size =>
    by_cases hlt : a.val.toUInt64.toNat < size
    · have hposition : (window base size).kernelOf a.val.toUInt64 =
          .ok (base + a.val.toUInt64) := if_pos hlt
      rw [reach, hposition] at h
      cases h
    · have hposition : (window base size).kernelOf a.val.toUInt64 = .error .physicalOutOfBounds :=
        if_neg hlt
      rw [reach, hposition] at h
      cases h
      exact id

variable {k k' : Kernel} {p : FramePool} {live : List Block} {count : Nat} {a : PhysicalAddress}

theorem Kernel.Holds.reachFrame_meets (h : k.Holds p live) (a : PhysicalAddress) :
    ((Op.reachFrame a).run k).Meets (fun _ k' => k' = k) (fun _ _ => False)
      (fun cause => ¬ cause.FreeRefused) := by
  obtain ⟨m, hm, -⟩ := h.covers
  unfold Op.reachFrame Op.directMapped
  rw [Transition.run_discard, Transition.run_bind, Op.run_directMap hm, andThen_done]
  cases hreach : m.reach a with
  | error cause => exact .halted (DirectMap.reach_error hreach)
  | ok v => exact .done rfl

/-- A byte written outside the records leaves the pool as it is. -/
theorem Kernel.Holds.store (h : k.Holds p live) (ha : ¬ p.IsRecord a.val) (v : UInt8) :
    (k.mapRam (·.store a.val v)).Holds p live := by
  have htouches : Kernel.Touches p {a.number.val} k (k.mapRam (·.store a.val v)) :=
    Kernel.Touches.mapRam k (k.ram.sameOff_store v (Address.number_val a).symm) rfl
  refine h.of_touches ⟨h.toHosts.mapRam (Ram.size_store _ _ _), ?_⟩ htouches
  refine h.represents.congr fun i hi => ?_
  unfold FramePool.record
  rw [Kernel.ram_mapRam, Ram.byte_store, if_neg]
  rintro ⟨heq, -⟩
  exact ha ⟨by omega, by omega⟩

namespace Session

variable {s : Session} {v : KernelAddress} {R : Refusal → Session → Prop} {H : Halt → Prop}

/-- A block that was handed out is entered. -/
theorem Sound.lend_meets (h : s.Sound p) (hout : s.kernel.HandsOut p s.owned count a k') :
    ((lend count a).run (s.withKernel k')).Meets (fun _ s' => s'.Shows p s.scene) R H := by
  have hholds : k'.Holds p ([⟨a.number.val, count⟩] ++ s.owned) := hout.holds
  obtain ⟨hkeeps, hscene⟩ := h.withKernel hholds hout.same
  exact .done ⟨⟨hkeeps.holds, hkeeps.good⟩, hscene⟩

/-- A refusal, or pages that were not there, leaves a line in the log. -/
theorem Sound.shows_of_ram_eq (h : s.Sound p) (hk : k'.Holds p s.owned) (hram : k'.ram = s.kernel.ram) :
    (s.withKernel k').Shows p s.scene :=
  h.shows hk (by rw [hram]; exact Ram.SameBlocks.refl _ _)

theorem Sound.shows_push (h : s.Sound p) (hk : ∃ e, k' = s.kernel.push e) :
    (s.withKernel k').Shows p s.scene := by
  obtain ⟨e, rfl⟩ := hk
  exact h.shows_of_ram_eq (h.holds_owned.push e) rfl

/-- The block that starts at an address outside all objects is one of the client's own. -/
theorem Sound.perm_eraseP (h : s.Sound p) (ha : a.number.val ∉ framesOf s.objectBlocks) {b : Block}
    (hb : b ∈ s.owned) (hfirst : b.first = a.number.val) :
    s.blocks.Perm (b :: s.blocks.eraseP (·.first = a.number.val)) := by
  have hrepresents := h.holds_owned.represents
  have hself {c : Block} (hc : c ∈ s.owned) (hfirst : c.first = a.number.val) :
      a.number.val ∈ c := by
    have hpos := (hrepresents.within c hc).2.1
    exact Block.mem_iff.2 (by omega)
  have hblock : b ∈ s.blocks := by
    rcases List.mem_append.1 hb with hown | hobject
    · exact hown
    · exact absurd ⟨b, hobject, hself hb hfirst⟩ ha
  obtain ⟨c, l₁, l₂, -, hc, hsplit, hrest⟩ :=
    List.exists_of_eraseP (p := fun x : Block => decide (x.first = a.number.val)) hblock
      (by simpa using hfirst)
  have hc : c.first = a.number.val := of_decide_eq_true hc
  have hmem : c ∈ s.owned := by
    refine List.mem_append_left _ ?_
    rw [hsplit]
    exact List.mem_append_right _ List.mem_cons_self
  obtain rfl := hrepresents.eq_of_mem hmem hb (hself hmem hc) (hself hb hfirst)
  rw [hrest]
  nth_rewrite 1 [hsplit]
  exact List.perm_middle

/-- A block that was taken back is struck out. -/
theorem Sound.giveBack_meets (h : s.Sound p)
    (ha : a.isPageAligned = true → a.number.val ∉ framesOf s.objectBlocks)
    (htook : s.kernel.TakesBack p s.owned a k') :
    ((giveBack a).run (s.withKernel k')).Meets (fun _ s' => s'.Shows p s.scene) R H := by
  obtain ⟨b, hb, hfirst, hrest⟩ := htook.took
  have hperm : s.owned.Perm
      (b :: (s.blocks.eraseP (·.first = a.number.val) ++ s.objectBlocks)) :=
    (h.perm_eraseP (ha htook.aligned) hb hfirst).append_right _
  -- the books without the block, before anything was done
  have hstruck : Keeps p [b] { s with blocks := s.blocks.eraseP (·.first = a.number.val) } :=
    ⟨h.holds.perm hperm, h.good⟩
  have hsame := htook.same.mono fun f hf => by
    rw [framesOf_perm hperm]
    exact mem_framesOf_cons.2 (.inr hf)
  obtain ⟨hsound, hscene⟩ := hstruck.shows (hrest _ hperm) hsame
  exact .done ⟨⟨hsound.holds, hsound.good⟩, hscene⟩

/-! ## The requests -/

theorem Sound.op_lend (h : s.Sound p) {x : Op PhysicalAddress}
    (hx : (x.run s.kernel).Meets (fun a k => s.kernel.HandsOut p s.owned count a k)
      (fun _ k => ∃ e, k = s.kernel.push e) H) :
    ((op x >>= lend count).run s).Meets (fun _ s' => s'.Shows p s.scene)
      (fun _ s' => s'.Shows p s.scene) H := by
  refine Transition.Meets.bind (P := fun a s' => ∃ k, s' = s.withKernel k ∧
    s.kernel.HandsOut p s.owned count a k) (op_meets (hx.mono ?_ ?_ fun _ hH => hH)) ?_
  · exact fun a k hout => ⟨k, rfl, hout⟩
  · exact fun _ k hk => h.shows_push hk
  · rintro a _ ⟨k, rfl, hout⟩
    exact h.lend_meets hout

/-- Pages are handed out as frames are, and when there are none the log grows. -/
theorem Sound.allocatePages_cases (h : s.Sound p) (count : Nat) :
    (∃ a k, s.kernel.HandsOut p s.owned count a k ∧
        (perform (.allocatePages count)).run s = (lend count a).run (s.withKernel k)) ∨
      (∃ k, k.Holds p s.owned ∧ k.ram = s.kernel.ram ∧ Kernel.Touches p ∅ s.kernel k ∧
        (perform (.allocatePages count)).run s = .done () (s.withKernel k)) ∨
      ∃ cause, ¬ cause.FreeRefused ∧ (perform (.allocatePages count)).run s = .halted cause := by
  have hmeets := h.holds_owned.allocateKernelPages_meets count
  have hperform : (perform (.allocatePages count)).run s = _ :=
    Transition.run_bind (op (Op.allocateKernelPages count)) _ s
  cases hrun : (Op.allocateKernelPages count).run s.kernel with
  | refused cause k => exact (hmeets.of_refused hrun).elim
  | halted cause =>
    rw [run_op, hrun] at hperform
    exact .inr (.inr ⟨cause, hmeets.of_halted hrun, hperform⟩)
  | done v? k =>
    rw [run_op_of_done hrun, andThen_done] at hperform
    have hpages := hmeets.of_done hrun
    cases v? with
    | none =>
      obtain ⟨hholds, hram, htouches⟩ := hpages
      exact .inr (.inl ⟨k, hholds, hram, htouches, hperform⟩)
    | some v =>
      obtain ⟨a, hreached, hout⟩ := hpages
      have hlend : (op (Op.fromDirectMapped v) >>= lend count).run (s.withKernel k) =
          (lend count a).run (s.withKernel k) := by
        rw [Transition.run_bind, run_op_of_done (s := s.withKernel k) hreached]
        rfl
      exact .inl ⟨a, k, hout, hperform.trans hlend⟩

/-- Pages are taken back as frames are. -/
theorem Sound.freePages_cases (h : s.Sound p) (v : KernelAddress) :
    (∃ m a k, s.kernel.directMap? = some m ∧ m.reached v = .ok a ∧
        s.kernel.TakesBack p s.owned a k ∧
          (perform (.freePages v)).run s = (giveBack a).run (s.withKernel k)) ∨
      ∃ cause, (perform (.freePages v)).run s = .halted cause := by
  have hmeets := h.holds_owned.freeKernelPages_meets v
  have hperform : (perform (.freePages v)).run s =
      ((op (Op.freeKernelPages v)).run s).andThen fun _ =>
        (op (Op.fromDirectMapped v) >>= giveBack).run := rfl
  cases hrun : (Op.freeKernelPages v).run s.kernel with
  | refused cause k => exact (hmeets.of_refused hrun).elim
  | halted cause =>
    rw [run_op, hrun] at hperform
    exact .inr ⟨cause, hperform⟩
  | done answer k =>
    obtain ⟨m, a, hm, hreached, htook, hback⟩ := hmeets.of_done hrun
    rw [run_op_of_done hrun, andThen_done, Transition.run_bind,
      run_op_of_done (s := s.withKernel k) hback] at hperform
    exact .inl ⟨m, a, k, hm, hreached, htook, hperform⟩

theorem Sound.perform_allocatePages (h : s.Sound p) :
    ((perform (.allocatePages count)).run s).Meets (fun _ s' => s'.Shows p s.scene)
      (fun _ s' => s'.Shows p s.scene) (fun cause => ¬ cause.FreeRefused) := by
  rcases h.allocatePages_cases count with ⟨a, k, hout, hrun⟩ | ⟨k, hk, hram, -, hrun⟩ |
    ⟨cause, hcause, hrun⟩
  · rw [hrun]
    exact h.lend_meets hout
  · rw [hrun]
    exact .done (h.shows_of_ram_eq hk hram)
  · rw [hrun]
    exact .halted hcause

theorem Sound.perform_free (h : s.Sound p)
    (ha : a.isPageAligned = true → a.number.val ∉ framesOf s.objectBlocks) :
    ((perform (.free a)).run s).Meets (fun _ s' => s'.Shows p s.scene)
      (fun _ s' => s'.Shows p s.scene) H := by
  unfold perform
  refine Transition.Meets.bind (P := fun _ s' => ∃ k, s' = s.withKernel k ∧
    s.kernel.TakesBack p s.owned a k) (Transition.Meets.discard (op_meets
      ((h.holds_owned.free_meets a).mono ?_ ?_ fun _ hH => hH.elim))) ?_
  · exact fun _ k htook => ⟨k, rfl, htook⟩
  · rintro _ _ rfl
    exact h.shows_of_ram_eq h.holds_owned rfl
  · rintro _ _ ⟨k, rfl, htook⟩
    exact h.giveBack_meets ha htook

theorem Sound.perform_mustFree (h : s.Sound p)
    (ha : a.isPageAligned = true → a.number.val ∉ framesOf s.objectBlocks) :
    ((perform (.mustFree a)).run s).Meets (fun _ s' => s'.Shows p s.scene)
      (fun _ s' => s'.Shows p s.scene) (fun _ => True) := by
  unfold perform
  refine Transition.Meets.bind (P := fun _ s' => ∃ k, s' = s.withKernel k ∧
    s.kernel.TakesBack p s.owned a k) (op_meets
      ((h.holds_owned.freeOwned_meets a).mono ?_ ?_ fun _ hH => hH)) ?_
  · exact fun _ k htook => ⟨k, rfl, htook⟩
  · exact fun _ _ hfalse => hfalse.elim
  · rintro _ _ ⟨k, rfl, htook⟩
    exact h.giveBack_meets ha htook

theorem Sound.perform_freePages (h : s.Sound p)
    (hv : ∀ m a, s.kernel.directMap? = some m → m.reached v = .ok a →
      a.isPageAligned = true → a.number.val ∉ framesOf s.objectBlocks) :
    ((perform (.freePages v)).run s).Meets (fun _ s' => s'.Shows p s.scene)
      (fun _ s' => s'.Shows p s.scene) (fun _ => True) := by
  rcases h.freePages_cases v with ⟨m, a, k, hm, hreached, htook, hrun⟩ | ⟨cause, hrun⟩
  · rw [hrun]
    exact h.giveBack_meets (hv m a hm hreached) htook
  · rw [hrun]
    exact .halted trivial

/-- A byte that is written outside the skeletons keeps a session sound; outside all objects it changes
nothing that is seen. -/
theorem Sound.perform_poke (h : s.Sound p) (hrecord : ¬ p.IsRecord a.val)
    (hskeleton : a.number.val ∉ s.skeleton) (v : UInt8) :
    ((perform (.poke a v)).run s).Meets
      (fun _ s' => s'.Sound p ∧ (a.number.val ∉ framesOf s.objectBlocks → s'.scene = s.scene))
      (fun _ _ => False) (fun cause => ¬ cause.FreeRefused) := by
  have hsame {f : Nat} (hf : f ≠ a.number.val) :
      s.kernel.ram.SameFrame (s.kernel.ram.store a.val v) f := fun j hj => by
    refine (s.kernel.ram.sameOff_store v (Address.number_val a).symm).byte_eq j ?_
    rw [hj]
    exact hf
  unfold perform
  refine op_meets (Transition.Meets.bind (P := fun _ k => k = s.kernel)
    ((h.holds_owned.reachFrame_meets a).mono (fun _ _ hQ => hQ) (fun _ _ hR => hR.elim)
      fun _ hH => hH) ?_)
  rintro _ _ rfl
  refine .done ⟨h.of_skeleton ?_ (h.holds_owned.store hrecord v), fun hobject => ?_⟩
  · exact fun f hf => hsame fun heq => hskeleton (heq ▸ hf)
  · exact scene_withKernel h fun f hf => hsame fun heq => hobject (heq ▸ hf)

end Session

end SoftPaging
