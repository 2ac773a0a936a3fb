import Mathlib
import SoftPaging.Proofs.Session.Duplication
import SoftPaging.Proofs.Space.Audit

/-!
# The log of a session is a complete audit

Whatever a client has done, the events of its log that hand out frames and take them back, in order,
tell the blocks that are handed out now: none of them is impossible where it stands, and in the end
they leave just the blocks that the client and its objects own (`runs_audited`). Nothing else
changes a record, also where a request is refused and cleans up after itself.

Most requests are audited whatever the objects are like. Those that write to a cell or a table that
is there rely on it lying in a frame that was granted, which is so in a sound session.
-/

namespace SoftPaging

open Outcome FramePool

variable {p : FramePool} {k : Kernel}

/-! ## Cells -/

namespace FrameCell

variable {α : Type} [Stored α] {c : FrameCell α}

theorem audits_read (c : FrameCell α) : p.Audits c.read fun _ => True :=
  (audits_reachFrame p c.frame).bind fun _ _ => audits_look p _

section

variable (hrelease : ∀ v : α, p.Audits (Stored.release v) fun _ => True)
include hrelease

theorem audits_release (c : FrameCell α) : p.Audits c.release fun _ => True :=
  c.audits_read.bind fun v _ => (hrelease v).bind fun _ _ => audits_freeOwned p c.frame

variable [Owning α]

theorem audits_new (v : α) : p.Audits (new v) fun _ => True := by
  refine ((audits_takeFrame p).onRefusal fun _ => hrelease v).bind fun frame hframe => ?_
  rw [Address.val_eq_of_aligned hframe.1]
  exact (audits_onRam hframe.2 fun ram => Owning.sameOff_store ram _ v).bind fun _ _ =>
    (Audits.lift _).bind fun _ _ => .pure trivial

theorem audits_replace (hc : p.Grants c.frame) (v : α) : p.Audits (c.replace v) fun _ => True := by
  refine c.audits_read.bind fun old _ => (hrelease old).bind fun _ _ => ?_
  rw [Address.val_eq_of_aligned hc.1]
  exact audits_onRam hc.2 fun ram => Owning.sameOff_store ram _ v

end

theorem audits_setElement {c : FrameCell Halves} (hc : p.Grants c.frame) (i : Nat) (w : UInt16) :
    p.Audits (c.setElement i w) fun _ => True := by
  refine (audits_reachFrame p c.frame).bind fun _ _ => (Audits.lift _).bind fun j _ => ?_
  have hj := j.isLt
  rw [Address.val_eq_of_aligned hc.1]
  exact audits_onRam hc.2 fun ram => ram.sameOff_storeHalf w (Nat.le_add_right _ _)
    (by simp only [pageSize]; omega)

end FrameCell

/-- To any depth, a value is given back cell by cell. -/
theorem CellKind.audits_release (kind : CellKind) :
    ∀ v : kind.Value, p.Audits (Stored.release v) fun _ => True := by
  induction kind with
  | byte | word | halves => exact fun _ => .pure trivial
  | nested inner ih =>
    intro v
    cases v with
    | none => exact .pure trivial
    | some c => exact c.audits_release ih

/-- A byte that a program stores lies in a page of its own. -/
theorem PageTable.Held.audited_storeAt {t : PageTable} {m : TableMap} {rest : List Block}
    (h : t.Held k p m rest) (a : VirtualAddress) (v : UInt8) :
    k.Audited p (fun _ _ => True) ((Session.storeAt t a v).run k) := by
  unfold Session.storeAt
  rw [Transition.run_bind, h.run_translate a, andThen_done]
  cases hpg : m.page a.directoryIndex a.tableIndex with
  | none => exact .done ⟨.refl, trivial⟩
  | some pg =>
    obtain ⟨pa, htranslate, hval, -⟩ := h.run_reachPage hpg
    have hframe : pa.val / pageSize = pg.frame := by
      have hoffset := a.pageOffset_lt
      simp only [pageSize] at hval hoffset ⊢
      omega
    rw [entryOf_some, htranslate]
    exact (audits_reachFrame p pa).bind (fun _ _ =>
      audits_onRam (h.holds.frame_bounds (h.page_mem hpg)).1 fun ram => ram.sameOff_store v hframe)
      k _ h.holds.toLends

/-! ## Acts -/

namespace Session

variable {s s' s₀ : Session} {i : Nat} {o : Object} {trace : List (Request × Bool)} {α β : Type}

/-- What an act did since the kernel was `k` is accounted for, however it ends. -/
abbrev Audited (p : FramePool) (k : Kernel) (out : Outcome Refusal Session α) : Prop :=
  out.Meets (fun _ s' => Kernel.Accounts p k s'.kernel) (fun _ s' => Kernel.Accounts p k s'.kernel)
    fun _ => True

/-- What the act does is accounted for wherever the pool lends anything. -/
def Audits (p : FramePool) (x : Act α) : Prop :=
  ∀ s live, s.kernel.Lends p live → Audited p s.kernel (x.run s)

theorem audited_op {x : Op α} {Q : α → Kernel → Prop}
    (hx : s.kernel.Audited p Q (x.run s.kernel)) : Audited p s.kernel ((op x).run s) :=
  op_meets (hx.mono (fun _ _ h => h.1) (fun _ _ h => h) fun _ h => h)

namespace Audits

theorem op {x : Op α} {Q : α → Prop} (hx : p.Audits x Q) : Audits p (op x) :=
  fun s live hk => audited_op (hx s.kernel live hk)

/-- What is noted of the client, its objects and its MMU does not concern the pool. -/
theorem change {f : Session → Session} (hf : ∀ s, (f s).kernel = s.kernel) :
    Audits p (Transition.change f : Act Unit) := fun s _ _ => by
  refine .done ?_
  rw [hf]
  exact .refl

theorem pure (a : α) : Audits p (pure a : Act α) := fun _ _ _ => .done .refl

theorem bind {x : Act α} {f : α → Act β} (hx : Audits p x) (hf : ∀ a, Audits p (f a)) :
    Audits p (x >>= f) := by
  intro s live hk
  refine Transition.Meets.bind (hx s live hk) fun a s' haccounts => ?_
  obtain ⟨live', hk'⟩ := haccounts.lends hk
  exact (hf a s' live' hk').mono (fun _ _ h => haccounts.trans h) (fun _ _ h => haccounts.trans h)
    fun _ h => h

theorem discard {x : Act α} (hx : Audits p x) : Audits p (discard x) :=
  fun s live hk => Transition.Meets.discard (hx s live hk)

theorem observe (f : Session → α) : Audits p (Transition.observe f : Act α) :=
  fun _ _ _ => .done .refl

theorem make {object : α → Object} {x : Op α} {Q : α → Prop} (hx : p.Audits x Q) :
    Audits p (make object x) :=
  (op hx).bind fun _ => change fun _ => rfl

theorem lend (count : Nat) (start : PhysicalAddress) : Audits p (lend count start) :=
  change fun _ => rfl

theorem giveBack (start : PhysicalAddress) : Audits p (giveBack start) :=
  change fun _ => rfl

end Audits

theorem Sound.audited (h : s.Sound p) {x : Act α} (hx : Audits p x) :
    Audited p s.kernel (x.run s) :=
  hx s _ h.holds_owned.toLends

theorem audited_idle {a : α} : Audited p s.kernel (.done a s) := .done .refl

/-- Working on a page table that is held next to what stays. -/
theorem Sound.audited_onTable (h : s.Sound p) {f : PageTable → Op Unit}
    (hf : ∀ t m rest, t.Held s.kernel p m rest →
      s.kernel.Audited p (fun _ _ => True) ((f t).run s.kernel)) :
    Audited p s.kernel ((onTable i f).run s) := by
  rw [run_onTable]
  cases htable : (s.object i).bind Object.table? with
  | none => exact audited_idle
  | some t =>
    obtain ⟨o, ho, ht⟩ := Option.bind_eq_some_iff.1 htable
    exact audited_op (hf t _ _ (h.held ho ht))

theorem Sound.audited_onSpace (h : s.Sound p)
    {f : AddressSpace → Mmu TlbBuffer → Op (AddressSpace × Mmu TlbBuffer)}
    (hf : ∀ sp m rest, sp.Sound → sp.table.Held s.kernel p m rest →
      s.kernel.Audited p (fun _ _ => True) ((f sp s.mmu).run s.kernel)) :
    Audited p s.kernel ((onSpace i f).run s) := by
  rcases s.space_cases i with ⟨sp, ho⟩ | hspace
  · rw [run_onSpace ho]
    have haudited := hf sp _ _ (h.take ho).2.1 (h.held ho rfl)
    exact Meets.andThen ((audited_op haudited).mono (fun _ _ h => .done h) (fun _ _ h => h)
      fun _ h => h)
  · rw [run_onSpace_of_no_space hspace]
    exact audited_idle

theorem audited_consume {x : Object → Option (Act Unit)}
    (hx : ∀ o act, s.object i = some o → x o = some act →
      Audited p s.kernel (act.run (s.put i none))) :
    Audited p s.kernel ((consume i x).run s) := by
  rw [run_consume]
  cases ho : s.object i with
  | none => exact audited_idle
  | some o =>
    rw [Option.bind_some]
    cases hact : x o with
    | none => exact audited_idle
    | some act => exact hx o act ho hact

/-! ## Requests -/

theorem audits_allocatePages (count : Nat) : Audits p (perform (.allocatePages count)) :=
  (Audits.op (audits_allocateKernelPages p count)).bind fun v? => by
    cases v? with
    | none => exact .pure ()
    | some v => exact (Audits.op (audits_fromDirectMapped p v)).bind (.lend count)

theorem audits_newCell (kind : CellKind) (d : Datum) : Audits p (perform (.newCell kind d)) := by
  intro s live hk
  rw [run_newCell]
  cases d.value? kind with
  | none => exact audited_idle
  | some v => exact Audits.make (FrameCell.audits_new kind.audits_release v) s live hk

/-- A byte that is written outside the records. -/
theorem audits_poke {a : PhysicalAddress} (ha : ¬ p.IsRecord a.val) (v : UInt8) :
    Audits p (perform (.poke a v)) := by
  have hstore : p.Audits (Op.onRam (·.store a.val v)) fun _ => True := by
    intro k live hk
    refine .done ⟨.write .refl (Ram.size_store _ _ _) fun j hj => ?_, trivial⟩
    rw [Ram.byte_store, if_neg]
    rintro ⟨rfl, -⟩
    exact ha hj
  exact .op ((audits_reachFrame p a).bind fun _ _ => hstore)

theorem audits_fault_none (code : Nat) (a : VirtualAddress) :
    Audits p (perform (.fault none code a)) :=
  (Audits.observe _).bind fun mmu => (Audits.op (Q := fun _ => True) fun k _ _ =>
    audited_serviceFault (fun _ hnone => by cases hnone) code a mmu).bind fun _ =>
      .change fun _ => rfl

/-- The frame of a cell was granted. -/
theorem Sound.cell_grants {kind : CellKind} {c : FrameCell kind.Value} (h : s.Sound p)
    (ho : s.object i = some (.cell kind c)) : p.Grants c.frame :=
  ⟨(h.take_cell ho).1.1, FrameCell.number_le (h.take_cell ho).2⟩

theorem Sound.audited_nest (h : s.Sound p) :
    Audited p s.kernel ((perform (.nest i)).run s) := by
  refine audited_consume fun o act ho hact => ?_
  cases o with
  | table t => cases hact
  | space sp => cases hact
  | cell kind c =>
    obtain rfl := Option.some.inj hact
    have hnew := FrameCell.audits_new (p := p) (CellKind.nested kind).audits_release
      (CellKind.wrap c)
    exact Audits.make hnew (s.put i none) _ h.holds_owned.toLends

theorem Sound.audited_setCell (h : s.Sound p) (d : Datum) :
    Audited p s.kernel ((perform (.setCell i d)).run s) := by
  rcases run_setCell_cases s i d with hrun | ⟨kind, c, v, ho, -, hrun⟩
  · rw [hrun s rfl]
    exact audited_idle
  · rw [hrun s rfl]
    exact h.audited (.op (FrameCell.audits_replace kind.audits_release (h.cell_grants ho) v))

theorem Sound.audited_setElement (h : s.Sound p) (index : Nat) (w : UInt16) :
    Audited p s.kernel ((perform (.setElement i index w)).run s) := by
  rcases run_setElement_cases s i index w with hrun | ⟨c, ho, hrun⟩
  · rw [hrun s rfl]
    exact audited_idle
  · rw [hrun s rfl]
    exact h.audited (.op (FrameCell.audits_setElement (h.cell_grants ho) index w))

theorem Sound.audited_setNested (h : s.Sound p) (inner : Nat) :
    Audited p s.kernel ((perform (.setNested i inner)).run s) := by
  rcases run_setNested_cases s i inner with ⟨-, hrun⟩ | ⟨kind, c, ho, hrun⟩
  · rw [hrun s rfl]
    exact audited_idle
  · rw [hrun s rfl]
    refine audited_consume fun o act _ hact => ?_
    obtain ⟨c', -, rfl⟩ := Option.map_eq_some_iff.1 hact
    have hreplace := FrameCell.audits_replace (CellKind.nested kind).audits_release
      (h.cell_grants ho) (CellKind.wrap c')
    exact Audits.op hreplace (s.put inner none) _ h.holds_owned.toLends

theorem Sound.audited_copyTable (h : s.Sound p) (target : Nat) :
    Audited p s.kernel ((perform (.copyTable i target)).run s) := by
  by_cases hsame : i = target
  · subst hsame
    rw [run_copyTable_self]
    exact audited_idle
  rw [run_copyTable hsame]
  cases htable : (s.object i).bind Object.table? with
  | none => exact audited_idle
  | some t =>
    obtain ⟨o, ho, ht⟩ := Option.bind_eq_some_iff.1 htable
    change Audited p s.kernel ((onTable target t.copyTo).run s)
    rw [run_onTable]
    cases htarget : (s.object target).bind Object.table? with
    | none => exact audited_idle
    | some u =>
      obtain ⟨o', ho', hu⟩ := Option.bind_eq_some_iff.1 htarget
      exact audited_op (PageTable.audited_copyTo (h.held_beside (Ne.symm hsame) ho ht ho' hu)
        ((h.take ho).2.shows ht))

theorem Sound.audited_copySpace (h : s.Sound p) :
    Audited p s.kernel ((perform (.copySpace i)).run s) := by
  rcases s.space_cases i with ⟨sp, ho⟩ | hspace
  · rw [run_copySpace ho]
    have hcopy := audited_op (AddressSpace.audited_copy (h.held ho (t := sp.table) rfl))
    exact Meets.andThen (hcopy.mono (fun _ _ h => .done h) (fun _ _ h => h) fun _ h => h)
  · rw [run_copySpace_of_no_space hspace]
    exact audited_idle

theorem Sound.audited_tearDown (h : s.Sound p) :
    Audited p s.kernel ((perform (.tearDown i)).run s) := by
  refine audited_consume fun o act ho hact => ?_
  cases o with
  | cell kind c => cases hact
  | space sp => cases hact
  | table t =>
    obtain rfl := Option.some.inj hact
    exact audited_op (s := s.put i none) (h.held ho (t := t) rfl).audited_tearDown

theorem Sound.audited_destroy (h : s.Sound p) :
    Audited p s.kernel ((perform (.destroy i)).run s) := by
  refine audited_consume fun o act ho hact => ?_
  cases o with
  | cell kind c => cases hact
  | table t => cases hact
  | space sp =>
    obtain rfl := Option.some.inj hact
    exact audited_op (s := s.put i none)
      (AddressSpace.audited_destroy (h.held ho (t := sp.table) rfl))

theorem Sound.audited_release (h : s.Sound p) :
    Audited p s.kernel ((perform (.release i)).run s) := by
  refine audited_consume fun o act ho hact => ?_
  obtain rfl := Option.some.inj hact
  refine audited_op (s := s.put i none) (Q := fun _ _ => True) ?_
  cases o with
  | cell kind c => exact c.audits_release kind.audits_release _ _ h.holds_owned.toLends
  | table t => exact (h.held ho (t := t) rfl).audited_release
  | space sp => exact (h.held ho (t := sp.table) rfl).audited_release

/-- Whatever a permitted request does to the records is in the log. -/
theorem Sound.perform_audited (h : s.Sound p) {r : Request} (hr : r.Permitted p s) :
    Audited p s.kernel ((perform r).run s) := by
  cases r with
  | allocate count => exact h.audited ((Audits.op (audits_allocate p count)).bind (.lend count))
  | allocateCleared count =>
    exact h.audited ((Audits.op (audits_allocateCleared p count)).bind (.lend count))
  | allocatePages count => exact h.audited (audits_allocatePages count)
  | free a => exact h.audited ((Audits.discard (.op (audits_free p a))).bind fun _ => .giveBack a)
  | mustFree a => exact h.audited ((Audits.op (audits_freeOwned p a)).bind fun _ => .giveBack a)
  | freePages v =>
    exact h.audited ((Audits.op (audits_freeKernelPages p v)).bind fun _ =>
      (Audits.op (audits_fromDirectMapped p v)).bind .giveBack)
  | poke a v => exact h.audited (audits_poke hr.1 v)
  | newCell kind d => exact h.audited (audits_newCell kind d)
  | nest j => exact h.audited_nest
  | setCell j d => exact h.audited_setCell d
  | setNested j inner => exact h.audited_setNested inner
  | setElement j index w => exact h.audited_setElement index w
  | newTable => exact h.audited (.make PageTable.audits_create)
  | openSlot j slot =>
    exact h.audited_onTable fun _ _ _ ht => .discard (ht.audited_openSlot slot)
  | closeSlot j slot => exact h.audited_onTable fun _ _ _ ht => ht.audited_closeSlot slot
  | mapPage j slot entry writable =>
    exact h.audited_onTable fun _ _ _ ht => .discard (ht.audited_mapPage slot entry writable)
  | writeProtect j a =>
    exact h.audited_onTable fun _ _ _ ht => .discard (ht.audited_writeProtect a)
  | copyTable j target => exact h.audited_copyTable target
  | store j a v => exact h.audited_onTable fun _ _ _ ht => ht.audited_storeAt a v
  | tearDown j => exact h.audited_tearDown
  | newSpace => exact h.audited (.make AddressSpace.audits_create)
  | addRegion j start size permissions =>
    exact h.audited_onSpace fun sp _ _ _ ht =>
      ((sp.audits_addRegion start size permissions).bind fun _ _ => .pure trivial) s.kernel _
        ht.holds.toLends
  | beginLoad j => exact h.audited_onSpace fun _ _ _ _ _ => .done ⟨.refl, trivial⟩
  | endLoad j =>
    exact h.audited_onSpace fun _ _ _ hsp ht => AddressSpace.audited_endLoad hsp ht s.mmu
  | fault j? code a =>
    cases j? with
    | none => exact h.audited (audits_fault_none code a)
    | some j =>
      refine h.audited_onSpace fun sp m rest hsp ht => ?_
      have hspace : ∀ sp', some sp = some sp' →
          sp'.Sound ∧ ∃ m rest, sp'.table.Held s.kernel p m rest := by
        intro sp' heq
        cases heq
        exact ⟨hsp, m, rest, ht⟩
      exact (audited_serviceFault hspace code a s.mmu).bind fun _ _ _ => .done ⟨.refl, trivial⟩
  | copySpace j => exact h.audited_copySpace
  | destroy j => exact h.audited_destroy
  | release j => exact h.audited_release
  | drive f => exact .done .refl

/-! ## Runs -/

/-- The log at its finest, replayed from the start, tells the blocks that the client and its objects
own, and the records are those of these blocks. -/
def Replays (p : FramePool) (s : Session) : Prop :=
  ∃ live, p.replay [] (s.kernel.log.toList.filter (·.severity.passes .trace)) = some live ∧
    live.Perm s.owned ∧ p.Represents s.kernel.ram live

/-- At its finest the log shows every event. -/
theorem filter_trace (es : List Event) : es.filter (·.severity.passes .trace) = es :=
  List.filter_eq_self.2 fun e _ => by cases e <;> rfl

/-- What led from one session to another is in the log, each change of a record with its event; so
the log, which has only grown, tells the blocks that are owned in the end. -/
structure Logged (p : FramePool) (s s' : Session) : Prop where
  grows : s.kernel.log.toList <+: s'.kernel.log.toList
  accounts : s.kernel.Accounts p s'.kernel
  replays : s'.Replays p

/-- A pool that was just set up was written to the log, and nothing was handed out. -/
theorem Booted.replays (h : s₀.Booted p) : s₀.Replays p := by
  obtain ⟨base, size, ramSize, firstFree, k, hram, hpool, -⟩ := h.kernel_eq
  have hholds := h.sound.holds_owned
  rw [h.owned_eq] at hholds
  refine ⟨[], ?_, h.owned_eq ▸ .refl _, hholds.represents⟩
  obtain ⟨-, -, -, hk⟩ := bootPool_done hpool
  obtain rfl := installRam_done hram
  rw [hk, filter_trace]
  unfold Kernel.withPool Kernel.setUp Kernel.announce
  split <;> rfl

/-- What is accounted for goes on to be told by the log. -/
theorem Replays.logged (h : s.Replays p) (hs : s.Sound p) (hs' : s'.Sound p)
    (haccounts : s.kernel.Accounts p s'.kernel) : s.Logged p s' := by
  obtain ⟨live, hreplay, hperm, -⟩ := h
  obtain ⟨es, live', hlog, hreplay', hlends⟩ :=
    haccounts.replay (hs.holds_owned.toLends.perm hperm.symm)
  refine ⟨⟨es, hlog.symm⟩, haccounts, live', ?_,
    hlends.represents.unique hs'.holds_owned.represents, hlends.represents⟩
  rw [filter_trace] at hreplay ⊢
  rw [hlog, FramePool.replay_append, hreplay]
  exact hreplay'

/-- One permitted request, granted or refused. -/
theorem Replays.perform (h : s.Replays p) (hs : s.Sound p) {r : Request} (hr : r.Permitted p s) :
    ((Session.perform r).run s).Meets (fun _ s' => s.Logged p s') (fun _ s' => s.Logged p s')
      fun _ => True := by
  refine ((hs.perform_audited hr).and (hs.perform_meets hr)).mono ?_ ?_ fun _ _ => trivial
  · rintro _ s' ⟨haccounts, hfollows⟩
    exact h.logged hs hfollows.sound haccounts
  · rintro _ s' ⟨haccounts, hfollows⟩
    exact h.logged hs hfollows.sound haccounts

end Session

end SoftPaging
