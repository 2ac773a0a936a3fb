import Mathlib
import SoftPaging.Proofs.Session.Acting
import SoftPaging.Proofs.Space.Loading

/-!
# Requests for page tables and address spaces

What a session comes to when its client makes page tables and address spaces, works on them and gives
them back. Each of them is an operation on the page table of one object, of which it is known what
becomes of the image, run next to all the others.
-/

namespace SoftPaging

open Outcome

/-! ## Operations of a program -/

namespace PageTable.Held

variable {t : PageTable} {k : Kernel} {p : FramePool} {m : TableMap} {rest : List Block}

/-- The address that a resident address is translated to is reached by the direct map. -/
theorem run_reachPage (h : t.Held k p m rest) {a : VirtualAddress} {pg : Page}
    (hpg : m.page a.directoryIndex a.tableIndex = some pg) :
    ∃ pa, pg.entry.translate a = some pa ∧ pa.val = pg.frame * pageSize + a.pageOffset ∧
      (Op.reachFrame pa).run k = .done () k := by
  have hmem := h.page_mem hpg
  obtain ⟨pa, htranslate, hval⟩ := pg.translate_entry (h.holds.frame_lt hmem) a
  have hoffset := a.pageOffset_lt
  have hframe := (h.holds.frame_bounds hmem).2
  refine ⟨pa, htranslate, hval, Op.run_reachFrame_of_covers h.holds.covers ?_⟩
  rw [hval]
  simp only [pageSize] at hoffset ⊢
  omega

/-- A byte that is stored at an address is stored in its image, if the address is resident. -/
theorem storeAt_becomes {R : Refusal → Kernel → Prop} {H : Halt → Prop} (h : t.Held k p m rest)
    (a : VirtualAddress) (v : UInt8) :
    ((Session.storeAt t a v).run k).Meets
      (fun _ k' => t.Becomes p rest k ((m.image k.ram).store a v) k') R H := by
  unfold Session.storeAt
  rw [Transition.run_bind, h.run_translate a, andThen_done]
  cases hpg : m.page a.directoryIndex a.tableIndex with
  | none =>
    have himage : (m.image k.ram).store a v = m.image k.ram := by
      funext b
      unfold Image.store
      split
      · next heq =>
        rw [heq, TableMap.image_of_not_resident hpg]
        rfl
      · rfl
    rw [himage]
    exact .done h.unchanged
  | some pg =>
    obtain ⟨pa, htranslate, hval, hreach⟩ := h.run_reachPage hpg
    rw [entryOf_some, htranslate]
    simp only [Transition.run_bind, hreach, andThen_done, Op.run_onRam, hval]
    exact .done (h.store_becomes hpg v)

/-- A byte that is stored at an address changes no table. -/
theorem storeAt_skeleton {R : Refusal → Kernel → Prop} {H : Halt → Prop} (h : t.Held k p m rest)
    (a : VirtualAddress) (v : UInt8) :
    ((Session.storeAt t a v).run k).Meets
      (fun _ k' => ∀ f ∈ t.skeleton m, k.ram.SameFrame k'.ram f) R H := by
  unfold Session.storeAt
  rw [Transition.run_bind, h.run_translate a, andThen_done]
  cases hpg : m.page a.directoryIndex a.tableIndex with
  | none => exact .done fun f _ => Ram.SameFrame.refl _ f
  | some pg =>
    obtain ⟨pa, htranslate, hval, hreach⟩ := h.run_reachPage hpg
    rw [entryOf_some, htranslate]
    simp only [Transition.run_bind, hreach, andThen_done, Op.run_onRam]
    have hframe : pa.val / pageSize = pg.frame := by
      have hoffset := a.pageOffset_lt
      rw [hval]
      simp only [pageSize] at hoffset ⊢
      omega
    obtain ⟨l, hl, hpage⟩ := TableMap.page_eq_some.1 hpg
    refine .done fun f hf n hn => (k.ram.sameOff_store v hframe).byte_eq n fun heq => ?_
    rw [hn] at heq
    exact h.page_not_mem_skeleton hl hpage (heq ▸ hf)

end PageTable.Held

namespace Session

variable {p : FramePool} {s : Session} {o : Object} {i : Nat} {t : PageTable}
  {R : Refusal → Session → Prop} {H : Halt → Prop}

theorem mapImage_id (w : Scene) (i : Nat) : w.change i (.mapImage id) = w :=
  Scene.change_of_fixed fun x _ => by cases x <;> rfl

theorem mapSpace_id (w : Scene) (i : Nat) : w.change i (.mapSpace id) = w :=
  Scene.change_of_fixed fun x _ => by cases x <;> rfl

/-! ## Making -/

/-- A page table that is held beside what stays is the page table of an object to add. -/
theorem adds_of_becomes {im : Image} {k' : Kernel} (ht : o.table? = some t) (hfit : o.Fit)
    (hb : t.Becomes p s.owned s.kernel im k') : s.Adds p (o.sightOf im) o k' := by
  obtain ⟨m, hheld, hsame, himage⟩ := hb
  have hmap := hheld.shows.mapIn_eq
  refine ⟨?_, hsame, Object.good_of_shows ht hfit (hmap.symm ▸ hheld.shows), ?_⟩
  · rw [Object.blocksIn_of_table? ht, hmap]
    exact hheld.holds
  · rw [Object.sightIn_of_table? ht, hmap, himage]

theorem becomes_blank {k' : Kernel} {rest : List Block} (hheld : t.Held k' p .vacant rest)
    (hsame : s.kernel.ram.SameBlocks k'.ram rest) : t.Becomes p rest s.kernel .blank k' :=
  ⟨_, hheld, hsame, TableMap.image_vacant _⟩

theorem Sound.make_table (h : s.Sound p) :
    ((make .table PageTable.create).run s).Meets
      (fun _ s' => s'.Shows p (s.scene.keep (.table .blank))) (fun _ s' => s'.Shows p s.scene) H := by
  refine make_meets h ((PageTable.create_vacant h.holds_owned).mono ?_ ?_ fun _ hH => hH.elim)
  · rintro t k ⟨hheld, hsame⟩
    exact adds_of_becomes (o := .table t) rfl trivial (becomes_blank hheld hsame)
  · rintro cause _ ⟨-, rfl⟩
    exact ⟨h.holds_owned.push _, Ram.SameBlocks.refl _ _⟩

theorem Sound.make_space (h : s.Sound p) :
    ((make .space AddressSpace.create).run s).Meets
      (fun _ s' => s'.Shows p (s.scene.keep (.space .blank))) (fun _ s' => s'.Shows p s.scene) H := by
  refine make_meets h ((AddressSpace.create_vacant h.holds_owned).mono ?_ ?_ fun _ hH => hH.elim)
  · rintro sp k ⟨hsound, hheld, hsame⟩
    exact adds_of_becomes (o := .space sp) rfl hsound (becomes_blank hheld hsame)
  · rintro cause _ ⟨-, rfl⟩
    exact ⟨h.holds_owned.push _, Ram.SameBlocks.refl _ _⟩

theorem owned_perm (ho : s.object i = some o) (ht : o.table? = some t) :
    (t.blocks (t.mapIn s.kernel.ram) ++ (s.put i none).owned).Perm s.owned := by
  have hperm := owned_object_perm ho
  rwa [Object.blocksIn_of_table? ht] at hperm

theorem run_copySpace_eq (s : Session) (i : Nat) : (perform (.copySpace i)).run s =
    (match s.object i with
    | some (.space sp) => make .space sp.copy
    | _ => pure () : Act Unit).run s := rfl

theorem run_copySpace {sp : AddressSpace} (ho : s.object i = some (.space sp)) :
    (perform (.copySpace i)).run s = (make .space sp.copy).run s := by
  rw [run_copySpace_eq, ho]

theorem run_copySpace_of_no_space (h : ∀ sp, s.object i ≠ some (.space sp)) :
    (perform (.copySpace i)).run s = .done () s := by
  rw [run_copySpace_eq]
  cases ho : s.object i with
  | none => rfl
  | some o =>
    cases o with
    | cell kind c => rfl
    | table t => rfl
    | space sp => exact absurd ho (h sp)

/-- A copy is made next to all that is owned. -/
theorem Sound.copy_beside {sp : AddressSpace} (h : s.Sound p) (ho : s.object i = some (.space sp)) :
    (sp.copy.run s.kernel).Meets
      (fun c k => c.Sound ∧ c.table.Becomes p s.owned s.kernel
        ((sp.table.mapIn s.kernel.ram).image s.kernel.ram) k)
      (fun _ k => k.Holds p s.owned ∧ s.kernel.ram.SameBlocks k.ram s.owned) never := by
  have hheld : sp.table.Held s.kernel p (sp.table.mapIn s.kernel.ram) (s.put i none).owned :=
    h.held ho rfl
  have hperm := owned_perm ho (t := sp.table) rfl
  refine (AddressSpace.copy_becomes (h.take ho).2.1 hheld).mono ?_ ?_ fun _ hH => hH
  · rintro c k ⟨hsound, hb⟩
    exact ⟨hsound, hb.perm hperm⟩
  · rintro cause k ⟨hholds, hsame⟩
    refine ⟨hholds.perm hperm, hsame.mono fun f hf => ?_⟩
    rwa [framesOf_perm hperm]

theorem Sound.make_copy {sp : AddressSpace} (h : s.Sound p) (ho : s.object i = some (.space sp)) :
    ((make .space sp.copy).run s).Meets
      (fun _ s' => s'.Shows p
        (s.scene.keep (.space ((sp.table.mapIn s.kernel.ram).image s.kernel.ram))))
      (fun _ s' => s'.Shows p s.scene) H := by
  refine make_meets h ((h.copy_beside ho).mono ?_ (fun _ _ hR => hR) fun _ hH => hH.elim)
  rintro c k ⟨hsound, hb⟩
  exact adds_of_becomes (o := .space c) rfl hsound hb

/-! ## Working -/

theorem Sound.onTable_openSlot (h : s.Sound p) (slot : Nat) :
    ((onTable i fun t => discard (t.openSlot slot)).run s).Meets (fun _ s' => s'.Shows p s.scene)
      (fun _ s' => s'.Shows p s.scene) (fun cause => ¬ cause.FreeRefused) := by
  have hrun := h.onTable_meets (i := i) id (f := fun t => discard (t.openSlot slot))
    (H := fun cause => ¬ cause.FreeRefused) fun t m rest hheld =>
      Transition.Meets.discard ((hheld.openSlot_becomes slot).mono (fun _ _ hb => hb.1) ?_ ?_)
  · rwa [mapImage_id] at hrun
  · rintro _ _ ⟨-, rfl⟩
    exact hheld.logged _
  · rintro cause rfl
    exact id

theorem Sound.onTable_closeSlot (h : s.Sound p) (slot : Nat) :
    ((onTable i (·.closeSlot slot)).run s).Meets
      (fun _ s' => s'.Shows p (s.scene.change i (.mapImage (·.closeSlot slot))))
      (fun _ s' => s'.Shows p s.scene) (fun cause => ¬ cause.FreeRefused) := by
  refine h.onTable_meets (·.closeSlot slot) fun t m rest hheld => ?_
  refine (hheld.closeSlot_becomes slot).mono (fun _ _ hb => hb.1) (fun _ _ hfalse => hfalse.elim) ?_
  rintro cause rfl
  exact id

theorem Sound.onTable_mapPage (h : s.Sound p) (slot entry : Nat) (writable : Bool) :
    ((onTable i fun t => discard (t.mapPage slot entry writable)).run s).Meets
      (fun _ s' => s'.Shows p (s.scene.change i (.mapImage (·.fill slot entry))))
      (fun _ s' => s'.Shows p s.scene) (fun cause => ¬ cause.FreeRefused) := by
  refine h.onTable_meets (·.fill slot entry) fun t m rest hheld => ?_
  refine Transition.Meets.discard ((hheld.mapPage_becomes slot entry writable).mono
    (fun _ _ hb => hb.1) ?_ ?_)
  · rintro _ _ ⟨-, rfl⟩
    exact hheld.logged _
  · rintro cause (rfl | rfl | rfl) <;> exact id

theorem Sound.onTable_writeProtect (h : s.Sound p) (a : VirtualAddress) :
    ((onTable i fun t => discard (t.writeProtect a)).run s).Meets
      (fun _ s' => s'.Shows p s.scene) (fun _ s' => s'.Shows p s.scene) H := by
  have hrun := h.onTable_meets (i := i) id (f := fun t => discard (t.writeProtect a)) (H := H)
    fun t m rest hheld => by
      obtain ⟨k', hrun, hb, -⟩ := hheld.writeProtect_becomes a
      refine Transition.Meets.discard ?_
      rw [hrun]
      exact .done hb
  rwa [mapImage_id] at hrun

/-- A table is not copied into itself. -/
theorem run_copyTable_self (s : Session) (i : Nat) :
    (perform (.copyTable i i)).run s = .done () s := by
  have hperform : perform (.copyTable i i) = pure () := if_pos rfl
  rw [hperform, Transition.run_pure]

theorem run_copyTable {target : Nat} (hne : i ≠ target) :
    (perform (.copyTable i target)).run s =
      match (s.object i).bind Object.table? with
      | some t => (onTable target t.copyTo).run s
      | none => .done () s := by
  have hperform : perform (.copyTable i target) = _ := if_neg hne
  rw [hperform, Transition.run_bind, Transition.run_observe, andThen_done]
  cases (s.object i).bind Object.table? <;> rfl

/-- What the source owns stands first among all that is owned besides the target. -/
theorem source_perm {target : Nat} (hne : target ≠ i) (ho : s.object i = some o)
    (ht : o.table? = some t) :
    (t.blocks (t.mapIn s.kernel.ram) ++ ((s.put target none).put i none).owned).Perm
      (s.put target none).owned := by
  have hsource : (s.put target none).object i = some o := by rw [object_put_of_ne hne, ho]
  have hperm := owned_perm hsource ht
  rwa [kernel_put] at hperm

/-- The page tables of two objects are held beside each other. -/
theorem Sound.held_beside {target : Nat} {o' : Object} {u : PageTable} (h : s.Sound p)
    (hne : target ≠ i) (ho : s.object i = some o) (ht : o.table? = some t)
    (ho' : s.object target = some o') (hu : o'.table? = some u) :
    u.Held s.kernel p (u.mapIn s.kernel.ram)
      (t.blocks (t.mapIn s.kernel.ram) ++ ((s.put target none).put i none).owned) :=
  (h.held ho' hu).perm (source_perm hne ho ht).symm

/-- Copying one table into another, next to all that is owned besides the target. -/
theorem Sound.copyTo_beside {target : Nat} {o' : Object} {u : PageTable} (h : s.Sound p)
    (hne : target ≠ i) (ho : s.object i = some o) (ht : o.table? = some t)
    (ho' : s.object target = some o') (hu : o'.table? = some u) :
    ((t.copyTo u).run s.kernel).Meets
      (fun _ k => u.Becomes p (s.put target none).owned s.kernel
        (((t.mapIn s.kernel.ram).image s.kernel.ram).above
          ((u.mapIn s.kernel.ram).image s.kernel.ram)) k)
      (fun _ k => ∃ im, u.Becomes p (s.put target none).owned s.kernel im k)
      (fun cause => cause = .copyTargetMapped) := by
  have hperm := source_perm hne ho ht
  have hheld := h.held_beside hne ho ht ho' hu
  have hshows : t.Shows s.kernel.ram (t.mapIn s.kernel.ram) := (h.take ho).2.shows ht
  refine (PageTable.copyTo_becomes hheld hshows).mono ?_ ?_ fun _ hH => hH.1
  · exact fun _ k hb => hb.1.perm hperm
  · rintro cause k ⟨-, ⟨im, hb⟩, -⟩
    exact ⟨im, hb.perm hperm⟩

/-- Copying into another table may break off in the middle, but leaves a page table either way. -/
theorem Sound.onTable_copyTo {target : Nat} (h : s.Sound p) (hne : i ≠ target)
    (ho : s.object i = some o) (ht : o.table? = some t) :
    ((onTable target t.copyTo).run s).Meets (fun _ s' => s'.Sound p) (fun _ s' => s'.Sound p)
      (fun cause => ¬ cause.FreeRefused) := by
  rw [run_onTable]
  cases htable : (s.object target).bind Object.table? with
  | none => exact .done h
  | some u =>
    obtain ⟨o', ho', hu⟩ := Option.bind_eq_some_iff.1 htable
    refine op_meets ((h.copyTo_beside hne.symm ho ht ho' hu).mono ?_ ?_ ?_)
    · exact fun _ k hb => (h.shows_change ho' hu hb).sound
    · rintro cause k ⟨im, hb⟩
      exact (h.shows_change ho' hu hb).sound
    · rintro cause rfl
      exact id

theorem Sound.onSpace_addRegion (h : s.Sound p) (start : VirtualAddress) (size : Nat)
    (permissions : Permissions) :
    ((onSpace i fun sp mmu => do
        return (← sp.addRegion start size permissions, mmu)).run s).Meets
      (fun _ s' => s'.Shows p s.scene) (fun _ s' => s'.Shows p s.scene) H := by
  have hrun := h.onSpace_meets (i := i) id (H := H)
    (f := fun sp mmu => do return (← sp.addRegion start size permissions, mmu))
    fun sp m rest hsound hheld => Transition.Meets.bind (P := fun after k =>
      after.Sound ∧ after.table = sp.table ∧ ∃ e, k = s.kernel.push e)
      ((hsound.addRegion start size permissions s.kernel).mono ?_ ?_ fun _ hH => hH.elim) ?_
  · rwa [mapSpace_id] at hrun
  · exact fun _ _ hadded => ⟨hadded.1, hadded.2.1, hadded.2.2.2⟩
  · rintro _ _ ⟨-, ⟨e, rfl⟩, -⟩
    exact hheld.logged _
  · rintro after _ ⟨hafter, htable, e, rfl⟩
    exact .done ⟨hafter, htable, hheld.logged _⟩

theorem Sound.onSpace_beginLoad (h : s.Sound p) :
    ((onSpace i fun sp mmu => return (sp.beginLoad, mmu)).run s).Meets
      (fun _ s' => s'.Shows p s.scene) (fun _ s' => s'.Shows p s.scene) H := by
  have hrun := h.onSpace_meets (i := i) id (H := H) (f := fun sp mmu => return (sp.beginLoad, mmu))
    fun sp m rest hsound hheld => .done ⟨hsound.beginLoad, rfl, hheld.unchanged⟩
  rwa [mapSpace_id] at hrun

theorem Sound.onSpace_endLoad (h : s.Sound p) :
    ((onSpace i fun sp mmu => sp.endLoad mmu).run s).Meets
      (fun _ s' => s'.Shows p s.scene) (fun _ s' => s'.Shows p s.scene) H := by
  have hrun := h.onSpace_meets (i := i) id (H := H) (f := fun sp mmu => sp.endLoad mmu)
    fun sp m rest hsound hheld => by
      obtain ⟨k', hrun, -, hb, -⟩ := AddressSpace.endLoad_done hsound hheld s.mmu
      rw [hrun]
      exact .done ⟨hsound.restored, rfl, hb⟩
  rwa [mapSpace_id] at hrun

theorem Sound.onSpace_fault (h : s.Sound p) (code : Nat) (a : VirtualAddress) :
    ((onSpace i fun sp mmu => do return (sp, ← serviceFault (some sp) code a mmu)).run s).Meets
      (fun _ s' => s'.Shows p
        (s.scene.change i (.mapSpace (·.fill a.directoryIndex.val a.tableIndex.val))))
      (fun _ s' => s'.Shows p s.scene) H := by
  refine h.onSpace_meets (·.fill a.directoryIndex.val a.tableIndex.val) fun sp m rest hsound hheld => ?_
  refine Transition.Meets.bind (P := fun _ k => sp.table.Becomes p rest s.kernel
    ((m.image s.kernel.ram).fill a.directoryIndex.val a.tableIndex.val) k)
    ((serviceFault_meets hsound hheld code a s.mmu).mono ?_ ?_ fun _ hH => hH.elim)
    fun mmu k hb => .done ⟨hsound, rfl, hb⟩
  · rintro mmu k ⟨writable, e, -, hmaps, -⟩
    exact hmaps.becomes
  · exact fun cause k hrefused => hheld.becomes_of_spare hrefused.held hrefused.touches

/-! ## Giving back -/

theorem Sound.op_tearDown (h : s.Sound p) (ho : s.object i = some (.table t)) :
    ((op t.tearDown).run (s.put i none)).Meets (fun _ s' => s'.Shows p (s.scene.set i none))
      R H := by
  have hheld : t.Held s.kernel p _ (s.put i none).owned := h.held ho rfl
  have hkeeps := (h.take ho).1.op_keeps (R := R) (H := H) hheld.tearDown_keeps
  rwa [scene_put] at hkeeps

theorem Sound.op_destroy {sp : AddressSpace} (h : s.Sound p) (ho : s.object i = some (.space sp)) :
    ((op sp.destroy).run (s.put i none)).Meets (fun _ s' => s'.Shows p (s.scene.set i none))
      R H := by
  have hheld : sp.table.Held s.kernel p _ (s.put i none).owned := h.held ho rfl
  have hkeeps := (h.take ho).1.op_keeps (R := R) (H := H) (AddressSpace.destroy_keeps hheld)
  rwa [scene_put] at hkeeps

/-- Whatever an object is, it can be given back, and nothing is written to but its cells or tables. -/
theorem Sound.release_touches (h : s.Sound p) (ho : s.object i = some o) :
    ∃ k', o.release.run s.kernel = .done () k' ∧ k'.Holds p (s.put i none).owned ∧
      Kernel.Touches p (o.skeletonIn s.kernel.ram) s.kernel k' := by
  have htable {t : PageTable} (hheld : t.Held s.kernel p (t.mapIn s.kernel.ram) (s.put i none).owned) :
      ∃ k', t.release.run s.kernel = .done () k' ∧ k'.Holds p (s.put i none).owned ∧
        Kernel.Touches p (t.skeleton (t.mapIn s.kernel.ram)) s.kernel k' := by
    obtain ⟨k', hrun, hholds, htouches⟩ := hheld.release
    exact ⟨k', hrun, hholds, htouches.mono fun f hf => .inr hf⟩
  obtain ⟨htaken, hgood⟩ := h.take ho
  cases o with
  | cell kind c =>
    have hholds := htaken.holds
    rw [List.append_nil] at hholds
    obtain ⟨k', hrun, hk', htouches⟩ := FrameCell.release_done hgood hholds
    exact ⟨k', hrun, hk', htouches.mono (Set.empty_subset _)⟩
  | table t => exact htable (h.held ho rfl)
  | space sp => exact htable (h.held ho rfl)

/-- Whatever an object is, it can be given back next to all that is owned besides. -/
theorem Sound.release_beside (h : s.Sound p) (ho : s.object i = some o) :
    ∃ k', o.release.run s.kernel = .done () k' ∧ k'.Holds p (s.put i none).owned ∧
      s.kernel.ram.SameBlocks k'.ram (s.put i none).owned := by
  obtain ⟨k', hrun, hholds, htouches⟩ := h.release_touches ho
  have hbefore := h.holds_owned.perm (owned_object_perm ho).symm
  exact ⟨k', hrun, hholds, hbefore.sameBlocks htouches fun f hf => .inl (o.skeleton_subset _ hf)⟩

theorem Sound.op_release (h : s.Sound p) (ho : s.object i = some o) :
    ((op o.release).run (s.put i none)).Meets (fun _ s' => s'.Shows p (s.scene.set i none))
      R H := by
  have hkeeps := (h.take ho).1.op_keeps (R := R) (H := H) (h.release_beside ho)
  rwa [scene_put] at hkeeps

end Session

end SoftPaging
