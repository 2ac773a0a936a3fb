import Mathlib
import SoftPaging.Proofs.Session.Alike
import SoftPaging.Proofs.Session.Spaces

/-!
# Requests to twins

A request comes to the same on two sessions that are alike but for bytes that are concealed: it is
granted on both, refused on both for the same cause, or halts on both, and leaves sessions that are
alike again. What is concealed grows when frames are handed out as they are, by the frames of a block
or by what a new cell leaves over of its frame. Everything else that takes a frame overwrites it.
-/

namespace SoftPaging

open Outcome
open Transition (Tracks)

namespace PageTable.HeldAlike

variable {t : PageTable} {p : FramePool} {m : TableMap} {rest : List Block} {X : Set Nat}
  {k k' : Kernel}

theorem tracks_storeAt (h : t.HeldAlike p m rest X k k') (a : VirtualAddress) (v : UInt8) :
    (Session.storeAt t a v).Tracks (Kernel.Alike p X) k k' := by
  unfold Session.storeAt
  refine .bind_of_run (h.held.run_translate a) (h.right.run_translate a) ?_
  cases hpg : m.page a.directoryIndex a.tableIndex with
  | none => exact .pure _ h.alike
  | some pg =>
    obtain ⟨pa, htranslate, hval, -⟩ := h.held.run_reachPage hpg
    rw [entryOf_some, htranslate]
    refine (h.alike.reads_reachFrame pa).tracks_bind h.alike fun _ _ => ?_
    refine h.alike.tracks_onRam (Ram.writes_store pa.val v) fun j hj => ?_
    have hrecord := h.sound.record_lt hj
    have hframe := (h.held.holds.frame_bounds (h.held.page_mem hpg)).1
    rw [Ram.byte_store, if_neg]
    rintro ⟨rfl, -⟩
    rw [hval] at hrecord
    simp only [pageSize] at *
    omega

end PageTable.HeldAlike

namespace Session

variable {α : Type} {p : FramePool} {X Y : Set Nat} {C : Set Block} {s s' s₁ : Session} {i : Nat}
  {o : Object} {t : PageTable} {r : Request}

/-! ## Acting on two sessions -/

theorem op_matches {x : Op α} {Q : α → Session → Session → Prop}
    {R : Refusal → Session → Session → Prop}
    (hx : (x.run s.kernel).Matches (fun a k k' => Q a (s.withKernel k) (s'.withKernel k'))
      (fun cause k k' => R cause (s.withKernel k) (s'.withKernel k')) (x.run s'.kernel)) :
    ((op x).run s).Matches Q R ((op x).run s') := by
  rw [run_op, run_op]
  generalize x.run s.kernel = out, x.run s'.kernel = out' at hx
  cases hx with
  | done h => exact .done h
  | refused h => exact .refused h
  | halted cause => exact .halted cause

theorem make_matches {object : α → Object} {x : Op α} {Q : Session → Session → Prop}
    {R : Refusal → Session → Session → Prop}
    (hx : (x.run s.kernel).Matches
      (fun a k k' => Q ((s.withKernel k).keep (object a)) ((s'.withKernel k').keep (object a)))
      (fun cause k k' => R cause (s.withKernel k) (s'.withKernel k')) (x.run s'.kernel)) :
    ((make object x).run s).Matches (fun _ => Q) R ((make object x).run s') :=
  Transition.Matches.bind (op_matches (Q := fun a t t' => Q (t.keep (object a)) (t'.keep (object a)))
    hx) fun _ _ _ _ h => .done h

/-- An operation that keeps kernels alike, on two sessions. -/
theorem tracks_op {x : Op α} {S : Session → Session → Prop}
    (hx : x.Tracks (Kernel.Alike p X) s.kernel s'.kernel)
    (hS : ∀ k k', k.Alike p X k' → S (s.withKernel k) (s'.withKernel k')) :
    (op x).Tracks S s s' :=
  op_matches (Outcome.Matches.mono hx (fun _ _ _ _ => hS _ _) fun _ _ _ _ => hS _ _)

/-- What is related after a request may be so because of where the request led. -/
theorem tracks_of_leads {S T : Session → Session → Prop} (hx : (perform r).Tracks T s s')
    (hS : ∀ t t', r.Leads s t → T t t' → S t t') : (perform r).Tracks S s s' :=
  Outcome.Matches.mono hx (fun _ _ _ hrun => hS _ _ (.inl hrun))
    fun cause _ _ hrun => hS _ _ (.inr ⟨cause, hrun⟩)

/-- The client has the same blocks, and no new object but at one place. -/
structure ChangesAt (i : Nat) (s s₁ : Session) : Prop where
  blocks_eq : s₁.blocks = s.blocks
  object_of_ne : ∀ j o, j ≠ i → s₁.object j = some o → s.object j = some o

theorem changesAt_keep (s : Session) (k : Kernel) (o : Object) :
    s.ChangesAt s.objects.length ((s.withKernel k).keep o) :=
  ⟨rfl, fun _ _ hj ho => (object_keep_of_ne (s := s.withKernel k) hj).symm.trans ho⟩

theorem changesAt_put (s : Session) (k : Kernel) (i : Nat) (o? : Option Object) :
    s.ChangesAt i ((s.withKernel k).put i o?) :=
  ⟨rfl, fun _ _ hj ho => (object_put_of_ne (s := s.withKernel k) (Ne.symm hj)).symm.trans ho⟩

theorem changesAt_withKernel (s : Session) (k : Kernel) (i : Nat) :
    s.ChangesAt i (s.withKernel k) := ⟨rfl, fun _ _ _ ho => ho⟩

/-- What there is of an object afterwards was there before and is left alone, or shows nothing that is
concealed. -/
structure Covers (X : Set Nat) (r : Request) (s s₁ : Session) : Prop where
  blocks_eq : s₁.blocks = s.blocks
  object_cases : ∀ j o, s₁.object j = some o →
    s.object j = some o ∧ ¬ r.Alters j ∨ Disjoint X (o.shownIn s₁.kernel.ram)

theorem covers_put_none {k : Kernel} (halters : ∀ j, j ≠ i → ¬ r.Alters j) :
    s.Covers X r ((s.put i none).withKernel k) := by
  refine ⟨rfl, fun j o ho => .inl ?_⟩
  obtain ⟨hj, ho⟩ := object_put_none.1 (show (s.put i none).object j = some o from ho)
  exact ⟨ho, halters j hj⟩

theorem covers_withKernel {k : Kernel} (ho : s.object i = some o)
    (halters : ∀ j o, j ≠ i → s.object j = some o → ¬ r.Alters j)
    (hX : Disjoint X (o.shownIn k.ram)) : s.Covers X r (s.withKernel k) := by
  refine ⟨rfl, fun j o' ho' => ?_⟩
  by_cases hj : j = i
  · subst hj
    obtain rfl := Option.some.inj (ho.symm.trans ho')
    exact .inr hX
  · exact .inl ⟨ho', halters j o' hj ho'⟩

theorem Covers.of_put_none (h : (s.put i none).Covers X r s₁) : s.Covers X r s₁ :=
  ⟨h.blocks_eq, fun j o ho => (h.object_cases j o ho).imp_left fun hbefore =>
    ⟨(object_put_none.1 hbefore.1).2, hbefore.2⟩⟩

/-- Nobody reads what lies in the frame of a cell past its value. -/
theorem Sound.conceals_slack {kind : CellKind} {c : FrameCell kind.Value} (h : s.Sound p)
    (ho : s.object i = some (.cell kind c)) : s.Conceals c.slack C := by
  obtain ⟨haligned, hholds⟩ := h.take_cell ho
  have hframe {n : Nat} (hn : n ∈ c.slack) : n / pageSize ∉ framesOf (s.put i none).owned := by
    rw [hn.1]
    exact h.not_mem_beside ho (mem_framesOf_self _ _)
  refine ⟨fun j o ho' => ?_, fun b hb _ => ?_⟩
  · by_cases hj : j = i
    · subst hj
      obtain rfl := Option.some.inj (ho.symm.trans ho')
      exact FrameCell.disjoint_slack haligned hholds
    · refine Set.disjoint_left.2 fun n hn hshown => hframe hn (mem_owned_put_none.2 (.inr ?_))
      exact ⟨j, o, hj, ho', Object.shownIn_subset (h.take ho').2 hshown⟩
  · refine Set.disjoint_left.2 fun n hn hmem => hframe hn (mem_owned_put_none.2 (.inl ?_))
    exact ⟨b, hb, by simpa [bytesOf] using hmem⟩

/-- What a request to consume an object comes to depends on the objects only. -/
theorem run_consume_cases (s : Session) (i : Nat) (x : Object → Option (Act Unit)) :
    (∀ t, t.objects = s.objects → (consume i x).run t = .done () t) ∨
      ∃ o act, s.object i = some o ∧ x o = some act ∧
        ∀ t, t.objects = s.objects → (consume i x).run t = act.run (t.put i none) := by
  cases hact : (s.object i).bind x with
  | none =>
    refine .inl fun t ht => ?_
    rw [run_consume, object_congr ht, hact]
  | some act =>
    obtain ⟨o, ho, hxo⟩ := Option.bind_eq_some_iff.1 hact
    refine .inr ⟨o, act, ho, hxo, fun t ht => ?_⟩
    rw [run_consume, object_congr ht, hact]

/-- One more block was handed out to the client, of frames that were not owned before. -/
structure Lent (b : Block) (s s₁ : Session) : Prop where
  objects_eq : s₁.objects = s.objects
  blocks_eq : s₁.blocks = b :: s.blocks
  fresh : ∀ f ∈ b, f ∉ framesOf s.owned

/-- The client has the same objects, and no block that it did not have. -/
structure Strikes (s s₁ : Session) : Prop where
  objects_eq : s₁.objects = s.objects
  blocks_subset : ∀ b ∈ s₁.blocks, b ∈ s.blocks

theorem strikes_withKernel (s : Session) (k : Kernel) : s.Strikes (s.withKernel k) :=
  ⟨rfl, fun _ hb => hb⟩

section

variable {k k' : Kernel} {a : PhysicalAddress} {R : Refusal → Session → Session → Prop}

theorem Alike.lend_matches {count : Nat} (h : s.Alike p X s') (hk : k.Alike p Y k')
    (hout : s.kernel.HandsOut p s.owned count a k) :
    ((lend count a).run (s.withKernel k)).Matches
      (fun _ t t' => t.Alike p Y t' ∧ s.Lent ⟨a.number.val, count⟩ t) R
      ((lend count a).run (s'.withKernel k')) := by
  have hholds : k.Holds p ([⟨a.number.val, count⟩] ++ s.owned) := hout.holds
  refine .done ⟨⟨hk, h.mmu_eq, ?_, h.objects_eq⟩, rfl, rfl, fun f hf => ?_⟩
  · exact congrArg (_ :: ·) h.blocks_eq
  · exact hholds.represents.disjoint_of_append (mem_framesOf_cons.2 (.inl hf))

theorem Alike.giveBack_matches (h : s.Alike p X s') (hk : k.Alike p X k') :
    ((giveBack a).run (s.withKernel k)).Matches (fun _ t t' => t.Alike p X t' ∧ s.Strikes t) R
      ((giveBack a).run (s'.withKernel k')) := by
  refine .done ⟨⟨hk, h.mmu_eq, ?_, h.objects_eq⟩, rfl, fun b hb => List.mem_of_mem_eraseP hb⟩
  exact congrArg (List.eraseP (fun b => b.first = a.number.val)) h.blocks_eq

/-- A block is handed out alike. -/
theorem Alike.matches_lend {x : Op PhysicalAddress} {count : Nat} (N : PhysicalAddress → Set Nat)
    (h : s.Alike p X s')
    (hx : (x.run s.kernel).Matches
      (fun a k k' => k.Alike p (N a) k' ∧ s.kernel.HandsOut p s.owned count a k)
      (fun _ => Kernel.Alike p X) (x.run s'.kernel)) :
    ((op x >>= lend count).run s).Matches
      (fun _ t t' => ∃ a, t.Alike p (N a) t' ∧ s.Lent ⟨a.number.val, count⟩ t)
      (fun _ t t' => t.Alike p X t' ∧ s.Strikes t) ((op x >>= lend count).run s') := by
  refine Transition.Matches.bind (op_matches (Q := fun a t t' => ∃ k k', k.Alike p (N a) k' ∧
    s.kernel.HandsOut p s.owned count a k ∧ t = s.withKernel k ∧ t' = s'.withKernel k')
      (hx.mono ?_ ?_)) ?_
  · exact fun a k k' _ hk => ⟨k, k', hk.1, hk.2, rfl, rfl⟩
  · exact fun _ k k' _ hk => ⟨h.withKernel hk, strikes_withKernel s k⟩
  · rintro a _ _ - ⟨k, k', hk, hout, rfl, rfl⟩
    exact (h.lend_matches hk hout).mono (fun _ _ _ _ ht => ⟨a, ht⟩) fun _ _ _ _ ht => ht

end

namespace Shadows

variable (h : s.Shadows p X C s')
include h

theorem twins : s.Twins p C s' := ⟨X, h.alike, h.conceals⟩

/-- A request that does nothing. -/
theorem tracks_idle (hrun : ∀ t : Session, t.objects = s.objects → (perform r).run t = .done () t) :
    (perform r).Tracks (Twins p C) s s' := by
  unfold Tracks
  rw [hrun s rfl, hrun s' h.alike.objects_eq]
  exact .done h.twins

theorem conceals_of_covers (hr : r.Permitted p s) (hl : r.Leads s s₁) (hcovers : s.Covers X r s₁) :
    s₁.Conceals X C :=
  h.conceals_of_leads hr hl (fun _ hn => .inl hn) hcovers.object_cases fun _ hb _ =>
    hcovers.blocks_eq ▸ hb

theorem tracks_covered (hr : r.Permitted p s)
    (hx : (perform r).Tracks (fun t t' => t.Alike p X t' ∧ s.Covers X r t) s s') :
    (perform r).Tracks (Twins p C) s s' :=
  tracks_of_leads hx fun _ _ hl ht => ⟨X, ht.1, h.conceals_of_covers hr hl ht.2⟩

/-- A request that works on one object, of which nothing is concealed. -/
theorem tracks_at (hr : r.Permitted p s) (halters : ∀ j, j ≠ i → ¬ r.Alters j)
    (hi : ∀ o, s.object i = some o →
      o.shownIn s.kernel.ram = bytesOf (o.blocksIn s.kernel.ram))
    (hx : (perform r).Tracks (fun t t' => t.Alike p X t' ∧ s.ChangesAt i t) s s') :
    (perform r).Tracks (Twins p C) s s' := by
  refine h.tracks_covered hr (tracks_of_leads hx fun t _ hl ⟨halike, hchanges⟩ => ⟨halike, ?_⟩)
  refine ⟨hchanges.blocks_eq, fun j o ho => ?_⟩
  by_cases hj : j = i
  · subst hj
    have hgood := ((h.sound.of_leads hr hl).take ho).2
    exact .inr ((h.disjoint_of_leads hr hl (h.owned_beside hi) halters hchanges.blocks_eq
      ho).mono_right (Object.shownIn_subset hgood))
  · exact .inl ⟨hchanges.object_of_ne j o hj ho, halters j hj⟩

theorem heldAlike (ho : s.object i = some o) (ht : o.table? = some t) :
    t.HeldAlike p (t.mapIn s.kernel.ram) (s.put i none).owned X s.kernel s'.kernel := by
  refine ⟨h.sound.held ho ht, h.alike.kernel, h.owned_beside fun o' ho' => ?_⟩
  obtain rfl := Option.some.inj (ho.symm.trans ho')
  rw [Object.shownIn_of_table? ht, Object.blocksIn_of_table? ht]

theorem tracks_table (hr : r.Permitted p s) (halters : ∀ j, j ≠ i → ¬ r.Alters j)
    (ho : s.object i = some o) (ht : o.table? = some t)
    (hx : (perform r).Tracks (fun t t' => t.Alike p X t' ∧ s.ChangesAt i t) s s') :
    (perform r).Tracks (Twins p C) s s' := by
  refine h.tracks_at hr halters (fun o' ho' => ?_) hx
  obtain rfl := Option.some.inj (ho.symm.trans ho')
  rw [Object.shownIn_of_table? ht, Object.blocksIn_of_table? ht]

/-! ## Page tables and address spaces -/

theorem tracks_onTable {f : PageTable → Op Unit} (hr : r.Permitted p s)
    (halters : ∀ j, j ≠ i → ¬ r.Alters j)
    (hrun : ∀ t : Session, t.objects = s.objects → (perform r).run t = (onTable i f).run t)
    (hf : ∀ o t, s.object i = some o → o.table? = some t →
      (f t).Tracks (Kernel.Alike p X) s.kernel s'.kernel) :
    (perform r).Tracks (Twins p C) s s' := by
  cases htable : (s.object i).bind Object.table? with
  | none =>
    refine h.tracks_idle fun t ht => ?_
    rw [hrun t ht, run_onTable, object_congr ht, htable]
  | some t =>
    obtain ⟨o, ho, ht⟩ := Option.bind_eq_some_iff.1 htable
    refine h.tracks_table hr halters ho ht ?_
    unfold Tracks
    rw [hrun s rfl, hrun s' h.alike.objects_eq, run_onTable, run_onTable, h.alike.object_eq, htable]
    exact tracks_op (hf o t ho ht) fun k _ hk =>
      ⟨h.alike.withKernel hk, changesAt_withKernel s k i⟩

theorem tracks_onSpace {f : AddressSpace → Mmu TlbBuffer → Op (AddressSpace × Mmu TlbBuffer)}
    (hr : r.Permitted p s) (halters : ∀ j, j ≠ i → ¬ r.Alters j) (hperform : perform r = onSpace i f)
    (hf : ∀ sp, s.object i = some (.space sp) →
      (f sp s.mmu).Tracks (Kernel.Alike p X) s.kernel s'.kernel) :
    (perform r).Tracks (Twins p C) s s' := by
  rcases s.space_cases i with ⟨sp, ho⟩ | hspace
  · refine h.tracks_table hr halters ho (t := sp.table) rfl ?_
    unfold Tracks
    rw [hperform, run_onSpace ho, run_onSpace ((h.alike.object_eq i).trans ho), h.alike.mmu_eq]
    refine Outcome.Matches.andThen (op_matches (Q := fun _ t t' => t.Alike p X t' ∧
      ∃ k, t = s.withKernel k) (Outcome.Matches.mono (hf sp ho) ?_ ?_)) ?_
    · exact fun _ k k' _ hk => ⟨h.alike.withKernel hk, k, rfl⟩
    · exact fun _ k k' _ hk => ⟨h.alike.withKernel hk, changesAt_withKernel s k i⟩
    · rintro after _ t' - ⟨halike, k, rfl⟩
      have hchanges := changesAt_put s k i (some (.space after.1))
      exact .done ⟨(halike.put i _).withMmu _, hchanges.blocks_eq, hchanges.object_of_ne⟩
  · refine h.tracks_idle fun t ht => ?_
    rw [hperform]
    exact run_onSpace_of_no_space (fun sp ho => hspace sp ((object_congr ht i).symm.trans ho)) f

/-- A request that works on no object, and makes none but one that shows all it owns. -/
theorem tracks_aside (hr : r.Permitted p s) (halters : ∀ j, ¬ r.Alters j)
    (hx : (perform r).Tracks (fun t t' => t.Alike p X t' ∧ s.ChangesAt s.objects.length t) s s') :
    (perform r).Tracks (Twins p C) s s' := by
  refine h.tracks_at hr (fun j _ => halters j) (fun o ho => ?_) hx
  have hlt := (List.getElem?_eq_some_iff.1 (object_eq_some.1 ho)).1
  exact absurd hlt (Nat.lt_irrefl _)

/-- Making an object that shows all it owns. -/
theorem tracks_make {object : α → Object} {x : Op α} (hr : r.Permitted p s)
    (halters : ∀ j, ¬ r.Alters j) (hrun : ∀ t : Session, t.objects = s.objects →
      (perform r).run t = (make object x).run t)
    (hx : x.Tracks (Kernel.Alike p X) s.kernel s'.kernel) :
    (perform r).Tracks (Twins p C) s s' := by
  refine h.tracks_aside hr halters ?_
  unfold Tracks
  rw [hrun s rfl, hrun s' h.alike.objects_eq]
  refine make_matches (Q := fun t t' => t.Alike p X t' ∧ s.ChangesAt s.objects.length t)
    (Outcome.Matches.mono hx ?_ ?_)
  · exact fun a k k' _ hk => ⟨(h.alike.withKernel hk).keep _, changesAt_keep s k _⟩
  · exact fun _ k k' _ hk => ⟨h.alike.withKernel hk, changesAt_withKernel s k _⟩

/-- An operation on a page table that is held on both sides. -/
theorem tracks_held {f : PageTable → Op Unit} (hr : r.Permitted p s)
    (halters : ∀ j, j ≠ i → ¬ r.Alters j) (hperform : perform r = onTable i f)
    (hf : ∀ t m rest, t.HeldAlike p m rest X s.kernel s'.kernel →
      (f t).Tracks (Kernel.Alike p X) s.kernel s'.kernel) :
    (perform r).Tracks (Twins p C) s s' :=
  h.tracks_onTable hr halters (fun t _ => congrArg (Transition.run · t) hperform)
    fun _ _ ho ht => hf _ _ _ (h.heldAlike ho ht)

theorem tracks_copyTable (i target : Nat) :
    (perform (.copyTable i target)).Tracks (Twins p C) s s' := by
  by_cases hne : i = target
  · subst hne
    exact h.tracks_idle fun t _ => run_copyTable_self t i
  have hrun (t : Session) (ht : t.objects = s.objects) :=
    object_congr ht i ▸ run_copyTable (s := t) hne
  cases htable : (s.object i).bind Object.table? with
  | none =>
    simp only [htable] at hrun
    exact h.tracks_idle hrun
  | some t =>
    obtain ⟨o, ho, ht⟩ := Option.bind_eq_some_iff.1 htable
    simp only [htable] at hrun
    refine h.tracks_onTable (i := target) trivial (fun j hj heq => hj heq.symm) hrun
      fun o' u ho' hu => ?_
    have htarget := h.heldAlike ho' hu
    have hsource := h.heldAlike ho ht
    have hheld := h.sound.held_beside (Ne.symm hne) ho ht ho' hu
    have hX : X ⊆ bytesOf ((s.put target none).put i none).owned := fun n hn => by
      have hmem := htarget.hidden hn
      rw [mem_bytesOf, ← framesOf_perm (source_perm (Ne.symm hne) ho ht), mem_framesOf_append] at hmem
      refine hmem.resolve_left fun hown => ?_
      exact hsource.held.holds.represents.disjoint_of_append hown (hsource.hidden hn)
    exact PageTable.HeldAlike.tracks_copyTo ⟨hheld, h.alike.kernel, bytesOf_subset_append hX⟩
      hsource.held.shows hX

theorem tracks_fault (i? : Option Nat) (code : Nat) (a : VirtualAddress) :
    (perform (.fault i? code a)).Tracks (Twins p C) s s' := by
  cases i? with
  | some i =>
    refine h.tracks_onSpace (i := i) trivial (fun j hj heq => hj (Option.some.inj heq).symm) rfl
      fun sp ho => ?_
    have hsource := h.heldAlike ho (t := sp.table) rfl
    refine Tracks.bind (h.alike.kernel.tracks_serviceFault (fun sp' hsp => ?_) code a s.mmu)
      fun _ _ _ _ hk => .pure _ hk
    obtain rfl := Option.some.inj hsp
    exact ⟨_, _, hsource.held, hsource.hidden⟩
  | none =>
    have hrun (t : Session) : (perform (.fault none code a)).run t =
        ((op (serviceFault none code a t.mmu)).run t).andThen fun mmu t' =>
          .done () { t' with mmu := mmu } := rfl
    refine h.tracks_aside trivial (fun j (heq : none = some j) => nomatch heq) ?_
    unfold Tracks
    rw [hrun, hrun, h.alike.mmu_eq]
    refine Outcome.Matches.andThen (op_matches (Q := fun _ t t' => t.Alike p X t' ∧
      s.ChangesAt s.objects.length t) (Outcome.Matches.mono
        (h.alike.kernel.tracks_serviceFault (fun _ hsp => by cases hsp) code a s.mmu) ?_ ?_)) ?_
    · exact fun _ k k' _ hk => ⟨h.alike.withKernel hk, changesAt_withKernel s k _⟩
    · exact fun _ k k' _ hk => ⟨h.alike.withKernel hk, changesAt_withKernel s k _⟩
    · rintro mmu t t' - ⟨halike, hchanges⟩
      exact .done ⟨halike.withMmu mmu, hchanges.blocks_eq, hchanges.object_of_ne⟩

theorem tracks_copySpace (i : Nat) : (perform (.copySpace i)).Tracks (Twins p C) s s' := by
  rcases s.space_cases i with ⟨sp, ho⟩ | hspace
  · refine h.tracks_make trivial (fun _ => id) (fun t ht => run_copySpace ((object_congr ht i).trans ho))
      (AddressSpace.tracks_copy (h.heldAlike ho (t := sp.table) rfl))
  · refine h.tracks_idle fun t ht => ?_
    exact run_copySpace_of_no_space fun sp ho => hspace sp ((object_congr ht i).symm.trans ho)

/-! ## Giving back -/

/-- A request that takes an object off the client and gives back what it owned. -/
theorem tracks_giveUp {x : Op Unit} (hr : r.Permitted p s) (halters : ∀ j, j ≠ i → ¬ r.Alters j)
    (hrun : ∀ t : Session, t.objects = s.objects → (perform r).run t = (op x).run (t.put i none))
    (hx : x.Tracks (Kernel.Alike p X) s.kernel s'.kernel) :
    (perform r).Tracks (Twins p C) s s' := by
  refine h.tracks_covered hr ?_
  unfold Tracks
  rw [hrun s rfl, hrun s' h.alike.objects_eq]
  exact tracks_op (s := s.put i none) hx fun k _ hk =>
    ⟨(h.alike.put i none).withKernel hk, covers_put_none halters⟩

theorem tracks_tearDown (i : Nat) : (perform (.tearDown i)).Tracks (Twins p C) s s' := by
  rcases run_consume_cases s i _ with hrun | ⟨o, act, ho, hact, hrun⟩
  · exact h.tracks_idle hrun
  cases o with
  | cell kind c => cases hact
  | space sp => cases hact
  | table t =>
    cases hact
    exact h.tracks_giveUp trivial (fun j hj heq => hj heq.symm) hrun
      (h.heldAlike ho (t := t) rfl).tracks_tearDown

theorem tracks_destroy (i : Nat) : (perform (.destroy i)).Tracks (Twins p C) s s' := by
  rcases run_consume_cases s i _ with hrun | ⟨o, act, ho, hact, hrun⟩
  · exact h.tracks_idle hrun
  cases o with
  | cell kind c => cases hact
  | table t => cases hact
  | space sp =>
    cases hact
    exact h.tracks_giveUp trivial (fun j hj heq => hj heq.symm) hrun
      (AddressSpace.tracks_destroy (h.heldAlike ho (t := sp.table) rfl))

/-- Whatever an object is, it is given back alike. -/
theorem tracks_releaseObject (ho : s.object i = some o) :
    o.release.Tracks (Kernel.Alike p X) s.kernel s'.kernel := by
  cases o with
  | cell kind c =>
    obtain ⟨haligned, hholds⟩ := h.sound.take_cell ho
    exact FrameCell.tracks_release h.alike.kernel haligned hholds (h.conceals.objects i _ ho)
  | table t => exact (h.heldAlike ho (t := t) rfl).tracks_release
  | space sp => exact (h.heldAlike ho (t := sp.table) rfl).tracks_release

theorem tracks_release (i : Nat) : (perform (.release i)).Tracks (Twins p C) s s' := by
  rcases run_consume_cases s i _ with hrun | ⟨o, act, ho, hact, hrun⟩
  · exact h.tracks_idle hrun
  cases hact
  exact h.tracks_giveUp trivial (fun j hj heq => hj heq.symm) hrun (h.tracks_releaseObject ho)

/-! ## Cells -/

theorem tracks_setCell (i : Nat) (d : Datum) :
    (perform (.setCell i d)).Tracks (Twins p C) s s' := by
  rcases run_setCell_cases s i d with hrun | ⟨kind, c, v, ho, hv, hrun⟩
  · exact h.tracks_idle hrun
  obtain ⟨haligned, hholds⟩ := h.sound.take_cell ho
  obtain ⟨hvalue, hbeside⟩ := holds_datum hv _ hholds
  have hX := h.conceals.objects i _ ho
  refine h.tracks_covered trivial ?_
  unfold Tracks
  rw [hrun s rfl, hrun s' h.alike.objects_eq]
  refine op_matches (Outcome.Matches.mono
    (FrameCell.tracks_replace h.alike.kernel haligned hholds hX v) ?_ ?_)
  · intro _ k k' hdone hk
    have hshown := of_exists_done (FrameCell.replace_shows haligned hvalue hbeside) hdone
    refine ⟨h.alike.withKernel hk, covers_withKernel ho (fun j _ hj _ heq => hj heq.symm) ?_⟩
    show Disjoint X (c.shownIn k.ram)
    rw [hshown, Datum.shows_nothing hv, Set.union_empty]
    exact hX.mono_right Set.subset_union_left
  · intro cause k k' hrefused
    obtain ⟨k₁, hdone, -⟩ := FrameCell.replace_shows haligned hvalue hbeside
    rw [hdone] at hrefused
    cases hrefused

theorem tracks_setElement (i index : Nat) (w : UInt16) :
    (perform (.setElement i index w)).Tracks (Twins p C) s s' := by
  rcases run_setElement_cases s i index w with hrun | ⟨c, ho, hrun⟩
  · exact h.tracks_idle hrun
  obtain ⟨haligned, hholds⟩ := h.sound.take_cell ho
  have hX : Disjoint X (c.shownIn s.kernel.ram) := h.conceals.objects i _ ho
  -- an array shows its own bytes, whatever they hold
  have hcovers (k : Kernel) : s.Covers X (.setElement i index w) (s.withKernel k) :=
    covers_withKernel ho (fun j _ hj _ heq => hj heq.symm) hX
  refine h.tracks_covered trivial ?_
  unfold Tracks
  rw [hrun s rfl, hrun s' h.alike.objects_eq]
  exact tracks_op (FrameCell.tracks_setElement h.alike.kernel haligned hholds index w)
    fun k _ hk => ⟨h.alike.withKernel hk, hcovers k⟩

/-- The cell that is moved shows what it showed, now by way of the outer one. -/
theorem tracks_setNested (i inner : Nat) :
    (perform (.setNested i inner)).Tracks (Twins p C) s s' := by
  rcases run_setNested_cases s i inner with ⟨-, hrun⟩ | ⟨kind, c, ho, hrun⟩
  · exact h.tracks_idle hrun
  rcases run_consume_cases s inner _ with hidle | ⟨o', act, ho', hact, hconsume⟩
  · exact h.tracks_idle fun t ht => (hrun t ht).trans (hidle t ht)
  obtain ⟨c', hc, rfl⟩ := Option.map_eq_some_iff.1 hact
  obtain rfl := Object.cell?_eq_some hc
  obtain ⟨haligned, hholds⟩ := h.sound.take_cell ho
  obtain ⟨hne, -, hvalue, hbeside⟩ := h.sound.take_nested ho ho'
  have hX : Disjoint X (c.shownIn s.kernel.ram) := h.conceals.objects i _ ho
  have hX' : Disjoint X (c'.shownIn s.kernel.ram) := h.conceals.objects inner _ ho'
  have hreplace := FrameCell.replace_shows haligned hvalue hbeside
  refine h.tracks_covered trivial ?_
  unfold Tracks
  rw [hrun s rfl, hrun s' h.alike.objects_eq, hconsume s rfl, hconsume s' h.alike.objects_eq]
  refine op_matches (Outcome.Matches.mono
    (FrameCell.tracks_replace h.alike.kernel haligned hholds hX (CellKind.wrap c')) ?_ ?_)
  · intro _ k k' hdone hk
    refine ⟨(h.alike.put inner none).withKernel hk, Covers.of_put_none (i := inner)
      (covers_withKernel (object_put_none.2 ⟨Ne.symm hne, ho⟩) ?_ ?_)⟩
    · rintro j o hj ho₁ (rfl | rfl)
      · exact hj rfl
      · exact (object_put_none.1 ho₁).1 rfl
    · show Disjoint X (c.shownIn k.ram)
      rw [of_exists_done hreplace hdone]
      exact Set.disjoint_union_right.2 ⟨hX.mono_right Set.subset_union_left, hX'⟩
  · intro cause k k' hrefused
    obtain ⟨k₁, hdone, -⟩ := hreplace
    rw [kernel_put, hdone] at hrefused
    cases hrefused

/-! ## New cells -/

/-- A cell that is made shows its value, and hides the rest of its frame. -/
theorem tracks_newIn {kind : CellKind} {v : kind.Value} {b b' : Session} (hr : r.Permitted p s)
    (hrun : (perform r).run s = (make (.cell kind) (FrameCell.new v)).run b)
    (hrun' : (perform r).run s' = (make (.cell kind) (FrameCell.new v)).run b')
    (hb : b.Alike p X b') (hcovers : ∀ k, s.Covers X r (b.withKernel k))
    (hv : Owning.Aligned b.kernel.ram v)
    (hholds : b.kernel.Holds p (Owning.blocksIn b.kernel.ram v ++ b.owned))
    (hX : Disjoint X (Legible.shownIn b.kernel.ram v))
    (hout : X ⊆ bytesOf (Owning.blocksIn b.kernel.ram v ++ b.owned)) :
    (perform r).Tracks (Twins p C) s s' := by
  have hmade : ((make (.cell kind) (FrameCell.new v)).run b).Matches
      (fun _ t t' => ∃ c k, t = (b.withKernel k).keep (.cell kind c) ∧
        t.Alike p (X ∪ c.slack) t' ∧ Disjoint X (c.shownIn k.ram))
      (fun _ t t' => t.Alike p X t' ∧ ∃ k, t = b.withKernel k)
      ((make (.cell kind) (FrameCell.new v)).run b') :=
    make_matches (Outcome.Matches.mono (FrameCell.new_alike hb.kernel hv hholds hX hout)
      (fun c k k' _ hk => ⟨c, k, rfl, (hb.withKernel hk.1).keep _, hk.2⟩)
      fun _ k k' _ hk => ⟨hb.withKernel hk, k, rfl⟩)
  unfold Tracks
  rw [hrun, hrun']
  refine hmade.mono ?_ ?_
  · rintro _ t t' hdone ⟨c, k, rfl, halike, hshown⟩
    have hl : r.Leads s _ := .inl (hrun.trans hdone)
    have ho := object_keep_self (b.withKernel k) (.cell kind c)
    refine ⟨X ∪ c.slack, halike, (h.conceals_of_covers hr hl ⟨(hcovers k).blocks_eq, ?_⟩).union
      ((h.sound.of_leads hr hl).conceals_slack ho)⟩
    intro j o ho'
    by_cases hj : j = (b.withKernel k).objects.length
    · subst hj
      obtain rfl := Option.some.inj (ho.symm.trans ho')
      exact .inr hshown
    · rw [object_keep_of_ne hj] at ho'
      exact (hcovers k).object_cases j o ho'
  · rintro cause t t' hrefused ⟨halike, k, rfl⟩
    exact ⟨X, halike, h.conceals_of_covers hr (.inr ⟨cause, hrun.trans hrefused⟩) (hcovers k)⟩

theorem tracks_newCell (kind : CellKind) (d : Datum) :
    (perform (.newCell kind d)).Tracks (Twins p C) s s' := by
  have hrun (t : Session) := run_newCell t kind d
  cases hv : d.value? kind with
  | none =>
    simp only [hv] at hrun
    exact h.tracks_idle fun t _ => hrun t
  | some v =>
    simp only [hv] at hrun
    obtain ⟨haligned, hholds⟩ := holds_datum hv [] h.sound.holds_owned
    refine h.tracks_newIn trivial (hrun s) (hrun s') h.alike (fun k => ⟨rfl, ?_⟩) haligned hholds ?_
      (bytesOf_subset_append h.owned)
    · exact fun j o ho => .inl ⟨ho, id⟩
    · rw [Datum.shows_nothing hv]
      exact Set.disjoint_empty X

theorem tracks_nest (i : Nat) : (perform (.nest i)).Tracks (Twins p C) s s' := by
  rcases run_consume_cases s i _ with hrun | ⟨o, act, ho, hact, hrun⟩
  · exact h.tracks_idle hrun
  cases o with
  | table t => cases hact
  | space sp => cases hact
  | cell kind c =>
    cases hact
    obtain ⟨haligned, hholds⟩ := h.sound.take_cell ho
    exact h.tracks_newIn (r := .nest i) trivial (hrun s rfl) (hrun s' h.alike.objects_eq)
      (h.alike.put i none) (fun _ => covers_put_none fun j hj heq => hj heq.symm) haligned hholds
      (h.conceals.objects i _ ho) fun n hn => (mem_owned_split ho).1 (h.owned hn)

/-! ## Frames -/

theorem tracks_poke (a : PhysicalAddress) (v : UInt8) (hr : (Request.poke a v).Permitted p s) :
    (perform (.poke a v)).Tracks (Twins p C) s s' := by
  have hk := h.alike.kernel
  refine h.tracks_aside hr (fun _ => id) (tracks_op ((hk.reads_reachFrame a).tracks_bind hk
    fun _ _ => hk.tracks_onRam (Ram.writes_store a.val v) fun j hj => ?_) fun k _ hk =>
      ⟨h.alike.withKernel hk, changesAt_withKernel s k _⟩)
  rw [Ram.byte_store, if_neg]
  rintro ⟨rfl, -⟩
  exact hr.1 hj

theorem conceals_struck (hr : r.Permitted p s) (hl : r.Leads s s₁) (halters : ∀ j, ¬ r.Alters j)
    (hstrikes : s.Strikes s₁) : s₁.Conceals X C :=
  h.conceals_of_leads hr hl (fun _ hn => .inl hn)
    (fun j _ ho => .inl ⟨(object_congr hstrikes.objects_eq j).symm.trans ho, halters j⟩)
    fun b hb _ => hstrikes.blocks_subset b hb

/-- Nobody reads what lies in a block that was handed out as it was. -/
theorem conceals_lent {b : Block} (hr : r.Permitted p s) (hl : r.Leads s s₁)
    (halters : ∀ j, ¬ r.Alters j) (hlent : s.Lent b s₁) : s₁.Conceals (X ∪ bytesOf [b]) C := by
  refine h.conceals_of_leads hr hl (fun n hn => hn.imp_right fun hmem => ?_) (fun j o ho => ?_)
    fun b' _ hC => h.kept b' hC
  · exact hlent.fresh _ (by simpa [bytesOf] using hmem)
  · exact .inl ⟨(object_congr hlent.objects_eq j).symm.trans ho, halters j⟩

/-- A block that was handed out cleared is known. -/
theorem conceals_cleared {b : Block} (hr : r.Permitted p s) (hl : r.Leads s s₁)
    (halters : ∀ j, ¬ r.Alters j) (hlent : s.Lent b s₁) :
    s₁.Conceals X (C ∪ {b | b ∉ s.blocks}) := by
  have hbefore : s₁.Conceals X C := h.conceals_of_leads hr hl (fun _ hn => .inl hn)
    (fun j o ho => .inl ⟨(object_congr hlent.objects_eq j).symm.trans ho, halters j⟩)
    fun b' _ hC => h.kept b' hC
  refine ⟨hbefore.objects, fun b' hb' hC => ?_⟩
  rcases hC with hC | hnew
  · exact hbefore.blocks b' hb' hC
  · rw [hlent.blocks_eq] at hb'
    obtain rfl := (List.mem_cons.1 hb').resolve_right hnew
    refine Set.disjoint_left.2 fun n hn hmem => ?_
    exact hlent.fresh (n / pageSize) (by simpa [bytesOf] using hmem) (h.owned hn)

/-- A request that hands out a block as it was, or strikes one out. -/
theorem tracks_frames (hr : r.Permitted p s) (halters : ∀ j, ¬ r.Alters j)
    (hx : (perform r).Tracks (fun t t' => (∃ b, t.Alike p (X ∪ bytesOf [b]) t' ∧ s.Lent b t) ∨
      t.Alike p X t' ∧ s.Strikes t) s s') : (perform r).Tracks (Twins p C) s s' := by
  refine tracks_of_leads hx fun t t' hl ht => ?_
  rcases ht with ⟨b, halike, hlent⟩ | ⟨halike, hstrikes⟩
  · exact ⟨_, halike, h.conceals_lent hr hl halters hlent⟩
  · exact ⟨X, halike, h.conceals_struck hr hl halters hstrikes⟩

theorem tracks_allocate (count : Nat) : (perform (.allocate count)).Tracks (Twins p C) s s' := by
  have hholds := h.sound.holds_owned
  have hmatches := h.alike.matches_lend _ (Outcome.Matches.mono
    (h.alike.kernel.allocate hholds count)
    (fun a k k' hrun hk => ⟨hk, (hholds.allocate_meets count).of_done hrun⟩) fun _ _ _ _ hk => hk)
  exact h.tracks_frames (r := .allocate count) trivial (fun _ => id) (hmatches.mono
    (fun _ _ _ _ ⟨a, ht⟩ => .inl ⟨_, ht⟩) fun _ _ _ _ ht => .inr ht)

/-- Frames that are handed out cleared are known. -/
theorem tracks_allocateCleared (count : Nat) :
    (perform (.allocateCleared count)).Tracks (Twins p (C ∪ {b | b ∉ s.blocks})) s s' := by
  have hholds := h.sound.holds_owned
  have hmatches : ((perform (.allocateCleared count)).run s).Matches _ _ _ :=
    h.alike.matches_lend (fun _ => X) (Outcome.Matches.mono
      (h.alike.kernel.allocateCleared hholds count)
      (fun a k k' hrun hk => ⟨hk, (hholds.allocateCleared_meets count).of_done hrun⟩)
      fun _ _ _ _ hk => hk)
  refine hmatches.mono ?_ ?_
  · rintro _ t t' hrun ⟨a, halike, hlent⟩
    exact ⟨X, halike, h.conceals_cleared (r := .allocateCleared count) trivial (.inl hrun)
      (fun _ => id) hlent⟩
  · rintro cause t t' hrun ⟨halike, hstrikes⟩
    have hconceals : t.Conceals X C :=
      h.conceals_struck (r := .allocateCleared count) trivial (.inr ⟨cause, hrun⟩) (fun _ => id)
        hstrikes
    exact ⟨X, halike, hconceals.mono subset_rfl fun b hb hC =>
      hC.resolve_right fun hnew => hnew (hstrikes.blocks_subset b hb)⟩

theorem tracks_allocatePages (count : Nat) :
    (perform (.allocatePages count)).Tracks (Twins p C) s s' := by
  have hholds := h.sound.holds_owned
  refine h.tracks_frames (r := .allocatePages count) trivial (fun _ => id) ?_
  refine Transition.Matches.bind (op_matches (Q := fun v? t t' => ∃ k k', t = s.withKernel k ∧
    t' = s'.withKernel k' ∧ (Op.allocateKernelPages count).run s.kernel = .done v? k ∧
      Kernel.AlikeBeside p X count v? k k') (Outcome.Matches.mono
        (h.alike.kernel.allocateKernelPages hholds count) ?_ ?_)) ?_
  · exact fun v? k k' hrun hk => ⟨k, k', rfl, rfl, hrun, hk⟩
  · exact fun _ k k' _ hk => .inr ⟨h.alike.withKernel hk, strikes_withKernel s k⟩
  rintro v? _ _ - ⟨k, k', rfl, rfl, hpages, hk⟩
  have hmeets := (hholds.allocateKernelPages_meets count).of_done hpages
  cases v? with
  | none => exact .done (.inr ⟨h.alike.withKernel hk, strikes_withKernel s k⟩)
  | some v =>
    obtain ⟨a, hrun, hk⟩ := hk
    obtain ⟨a', hrun', hout⟩ := hmeets
    obtain ⟨rfl, -⟩ := Outcome.done.inj (hrun.symm.trans hrun')
    obtain ⟨k₁, hright, -, rfl⟩ := (hk.reads_fromDirectMapped v).exists_done hrun
    refine Transition.Matches.bind (op_matches (Q := fun b t t' => b = a ∧ t = s.withKernel k ∧
      t' = s'.withKernel k₁) ?_) ?_
    · show ((Op.fromDirectMapped v).run k).Matches _ _ ((Op.fromDirectMapped v).run k₁)
      rw [hrun, hright]
      exact .done ⟨rfl, rfl, rfl⟩
    · rintro _ _ _ - ⟨rfl, rfl, rfl⟩
      exact Outcome.Matches.mono (h.alike.lend_matches hk hout) (fun _ _ _ _ ht => Or.inl ⟨_, ht⟩)
        fun _ _ _ _ ht => ht

/-- A block that is given back is struck out. -/
theorem tracks_giveBack {x : Act α} {f : α → PhysicalAddress} (hr : r.Permitted p s)
    (halters : ∀ j, ¬ r.Alters j)
    (hrun : ∀ t, (perform r).run t = (x.run t).andThen fun a t => (giveBack (f a)).run t)
    (hx : x.Tracks (fun t t' => ∃ k k', k.Alike p X k' ∧ t = s.withKernel k ∧ t' = s'.withKernel k')
      s s') : (perform r).Tracks (Twins p C) s s' := by
  refine h.tracks_frames hr halters ?_
  unfold Tracks
  rw [hrun, hrun]
  refine Outcome.Matches.andThen (Outcome.Matches.mono hx (fun _ _ _ _ ht => ht) ?_) ?_
  · rintro cause _ _ - ⟨k, k', hk, rfl, rfl⟩
    exact .inr ⟨h.alike.withKernel hk, strikes_withKernel s k⟩
  · rintro a _ _ - ⟨k, k', hk, rfl, rfl⟩
    exact Outcome.Matches.mono (h.alike.giveBack_matches hk) (fun _ _ _ _ ht => .inr ht)
      fun _ _ _ _ ht => ht

theorem tracks_free (a : PhysicalAddress) (hr : (Request.free a).Permitted p s) :
    (perform (.free a)).Tracks (Twins p C) s s' :=
  h.tracks_giveBack (f := fun _ => a) hr (fun _ => id) (fun _ => rfl)
    (tracks_op (h.alike.kernel.free h.sound.holds_owned a) fun k k' hk =>
      ⟨k, k', hk, rfl, rfl⟩).discard

theorem tracks_mustFree (a : PhysicalAddress) (hr : (Request.mustFree a).Permitted p s) :
    (perform (.mustFree a)).Tracks (Twins p C) s s' :=
  h.tracks_giveBack (f := fun _ => a) hr (fun _ => id) (fun _ => rfl)
    (tracks_op (h.alike.kernel.freeOwned h.sound.holds_owned a) fun k k' hk =>
      ⟨k, k', hk, rfl, rfl⟩)

theorem tracks_freePages (v : KernelAddress) (hr : (Request.freePages v).Permitted p s) :
    (perform (.freePages v)).Tracks (Twins p C) s s' := by
  refine h.tracks_giveBack (f := id) (x := op (Op.freeKernelPages v) >>= fun _ =>
    op (Op.fromDirectMapped v)) hr (fun _ => id) (fun t => ?_) ?_
  · rw [Transition.run_bind, andThen_assoc]
    rfl
  refine Tracks.bind (tracks_op (h.alike.kernel.freeKernelPages h.sound.holds_owned v)
    fun k k' hk => ⟨k, k', hk, rfl, rfl⟩) ?_
  rintro _ _ _ - ⟨k, k', hk, rfl, rfl⟩
  exact tracks_op (s := s.withKernel k) ((hk.reads_fromDirectMapped v).tracks hk)
    fun k₁ k₁' hk => ⟨k₁, k₁', hk, rfl, rfl⟩

/-! ## Every request -/

/-- A permitted request comes to the same on twins, and leaves twins. -/
theorem tracks_perform (hr : r.Permitted p s) (hcleared : ∀ count, r ≠ .allocateCleared count) :
    (perform r).Tracks (Twins p C) s s' := by
  cases r with
  | allocate count => exact h.tracks_allocate count
  | allocateCleared count => exact absurd rfl (hcleared count)
  | allocatePages count => exact h.tracks_allocatePages count
  | free a => exact h.tracks_free a hr
  | mustFree a => exact h.tracks_mustFree a hr
  | freePages v => exact h.tracks_freePages v hr
  | poke a v => exact h.tracks_poke a v hr
  | newCell kind d => exact h.tracks_newCell kind d
  | nest i => exact h.tracks_nest i
  | setCell i d => exact h.tracks_setCell i d
  | setNested i inner => exact h.tracks_setNested i inner
  | setElement i index w => exact h.tracks_setElement i index w
  | newTable =>
    exact h.tracks_make hr (fun _ => id) (fun _ _ => rfl)
      (h.alike.kernel.tracks_createTable h.sound.holds_owned)
  | openSlot i slot =>
    exact h.tracks_held hr (fun j hj heq => hj heq.symm) rfl fun _ _ _ hheld =>
      (hheld.tracks_openSlot slot).discard
  | closeSlot i slot =>
    exact h.tracks_held hr (fun j hj heq => hj heq.symm) rfl fun _ _ _ hheld =>
      hheld.tracks_closeSlot slot
  | mapPage i slot entry writable =>
    exact h.tracks_held hr (fun j hj heq => hj heq.symm) rfl fun _ _ _ hheld =>
      (hheld.tracks_mapPage slot entry writable).discard
  | writeProtect i a =>
    exact h.tracks_held hr (fun j hj heq => hj heq.symm) rfl fun _ _ _ hheld =>
      (hheld.tracks_writeProtect a).discard
  | copyTable i target => exact h.tracks_copyTable i target
  | store i a v =>
    exact h.tracks_held hr (fun j _ => id) rfl fun _ _ _ hheld => hheld.tracks_storeAt a v
  | tearDown i => exact h.tracks_tearDown i
  | newSpace =>
    exact h.tracks_make hr (fun _ => id) (fun _ _ => rfl)
      (AddressSpace.tracks_create h.alike.kernel h.sound.holds_owned)
  | addRegion i start size permissions =>
    exact h.tracks_onSpace hr (fun j hj heq => hj heq.symm) rfl fun sp _ =>
      (AddressSpace.tracks_addRegion h.alike.kernel sp start size permissions).bind
        fun _ _ _ _ hk => .pure _ hk
  | beginLoad i =>
    exact h.tracks_onSpace hr (fun j hj heq => hj heq.symm) rfl fun _ _ => .pure _ h.alike.kernel
  | endLoad i =>
    exact h.tracks_onSpace hr (fun j hj heq => hj heq.symm) rfl fun sp ho =>
      AddressSpace.tracks_endLoad (h.sound.take ho).2.1 (h.heldAlike ho (t := sp.table) rfl) s.mmu
  | fault i? code a => exact h.tracks_fault i? code a
  | copySpace i => exact h.tracks_copySpace i
  | destroy i => exact h.tracks_destroy i
  | release i => exact h.tracks_release i
  | drive f =>
    refine h.tracks_aside hr (fun _ => id) (.change ⟨?_, rfl, fun _ _ _ ho => ho⟩)
    exact ⟨h.alike.kernel, congrArg f h.alike.mmu_eq, h.alike.blocks_eq, h.alike.objects_eq⟩

end Shadows

end Session

end SoftPaging
