import Mathlib
import SoftPaging.Proofs.Tlb.Distinct

/-!
# Random replacement

The Random register goes round the slots that are not wired: from the top slot down to the lowest of
them, and over again. Only random writes move it. So whatever else is written or invalidated in between,
any 56 random writes in a row go to each of those slots once, and an entry that was written at random is
there until the 56th random write after it (`TlbBuffer.RoundRobin`).

The slots that random writes go to are an orbit of `nextRandom`. All that is said about them is read off
the closed form of its elements (`val_iterate_nextRandom`).
-/

namespace SoftPaging

/-- What is done to a TLB: a slot is written, by its number or at random, or all are invalidated. -/
inductive TlbAct where
  | write (slot : Nat) (e : TlbEntry)
  | writeRandom (e : TlbEntry)
  | flush

namespace TlbAct

def isRandom : TlbAct → Bool
  | writeRandom _ => true
  | _ => false

/-- The act writes the slot by its number, alone or along with all others. -/
def Targets (slot : Fin tlbSlots) : TlbAct → Prop
  | write n _ => n = slot.val
  | writeRandom _ => False
  | flush => True

/-- How many of the acts are random writes. -/
def randoms (acts : List TlbAct) : Nat := acts.countP isRandom

theorem randoms_cons (a : TlbAct) (acts : List TlbAct) :
    randoms (a :: acts) = randoms acts + if a.isRandom then 1 else 0 := List.countP_cons

end TlbAct

namespace TlbBuffer

open TlbAct (randoms)

/-- Does something to the TLB; halts when a slot is to be written that is not there. -/
def act (b : TlbBuffer) : TlbAct → Except Halt TlbBuffer
  | .write slot e => b.checkedWrite slot e
  | .writeRandom e => .ok (b.writeRandom e)
  | .flush => .ok (TlbDevice.flush b false)

/-- Does one thing after another. -/
def run (b : TlbBuffer) (acts : List TlbAct) : Except Halt TlbBuffer :=
  acts.foldlM act b

/-- The slots that the random writes among some acts go to, in their order. -/
def hits (b : TlbBuffer) : List TlbAct → List (Fin tlbSlots)
  | [] => []
  | a :: acts =>
    match b.act a with
    | .ok b' => if a.isRandom then b.random :: b'.hits acts else b'.hits acts
    | .error _ => []

/-- Random writes go round the slots that are not wired. -/
structure RoundRobin (b : TlbBuffer) : Prop where
  /-- A random write goes to the slot that the register names, which is not wired. -/
  writes_unwired : 8 ≤ b.random.val ∧ ∀ e slot, (b.writeRandom e).slots.get slot =
    if b.random = slot then e else b.slots.get slot
  /-- A wired slot changes only when it is written by its number or all slots are invalidated. -/
  wired_eq : ∀ acts b', b.run acts = .ok b' → ∀ slot : Fin tlbSlots, slot.val < 8 →
    (∀ a ∈ acts, ¬ a.Targets slot) → b'.slots.get slot = b.slots.get slot
  /-- An entry that was written at random stays in its slot through the next 55 random writes. -/
  stays : ∀ e acts b', (b.writeRandom e).run acts = .ok b' → randoms acts ≤ 55 →
    (∀ a ∈ acts, ¬ a.Targets b.random) → b'.slots.get b.random = e
  /-- The 56th random write after it goes to its slot, and to no other. -/
  overwrites : ∀ e acts b', (b.writeRandom e).run acts = .ok b' → randoms acts = 55 →
    ∀ e' slot, (b'.writeRandom e').slots.get slot =
      if b.random = slot then e' else b'.slots.get slot
  /-- Of 56 random writes, each slot that is not wired is hit by one, and no other slot by any. -/
  each_once : ∀ acts b', b.run acts = .ok b' → randoms acts = 56 →
    ∀ slot : Fin tlbSlots, (b.hits acts).count slot = if 8 ≤ slot.val then 1 else 0

/-! ## The orbit of the register -/

section Orbit

variable {r slot : Fin tlbSlots} {m n : Nat}

/-- From a slot that is not wired, the register goes down to the lowest of them and then on from the
top. -/
theorem val_iterate_nextRandom (hr : tlbWiredSlots ≤ r.val) (hn : n ≤ 56) :
    (nextRandom^[n] r).val =
      if n + tlbWiredSlots ≤ r.val then r.val - n else r.val + 56 - n := by
  induction n with
  | zero => simp [hr]
  | succ n ih =>
    have hlt := r.isLt
    rw [Function.iterate_succ_apply', val_nextRandom, ih (Nat.le_of_succ_le hn)]
    simp only [tlbWiredSlots, tlbSlots] at *
    split_ifs <;> omega

theorem tlbWiredSlots_le_iterate (hr : tlbWiredSlots ≤ r.val) (n : Nat) :
    tlbWiredSlots ≤ (nextRandom^[n] r).val := by
  induction n with
  | zero => exact hr
  | succ n ih =>
    rw [Function.iterate_succ_apply']
    exact tlbWiredSlots_le_nextRandom _

/-- The register is back after 56 random writes. -/
theorem iterate_nextRandom_56 (hr : tlbWiredSlots ≤ r.val) : nextRandom^[56] r = r := by
  have hlt := r.isLt
  refine Fin.ext ?_
  rw [val_iterate_nextRandom hr le_rfl]
  simp only [tlbWiredSlots, tlbSlots] at *
  split_ifs <;> omega

/-- It is not back before, wherever it started. -/
theorem iterate_nextRandom_ne (hpos : 0 < n) (hlt : n < 56) : nextRandom^[n] r ≠ r := by
  intro hback
  have hval := congrArg Fin.val hback
  by_cases hr : tlbWiredSlots ≤ r.val
  · rw [val_iterate_nextRandom hr hlt.le] at hval
    simp only [tlbWiredSlots] at *
    split_ifs at hval <;> omega
  · -- a wired slot is left for good
    obtain ⟨n, rfl⟩ := Nat.exists_eq_add_of_lt hpos
    have hge := tlbWiredSlots_le_iterate (tlbWiredSlots_le_nextRandom r) (0 + n)
    rw [← Function.iterate_succ_apply, hval] at hge
    exact hr hge

theorem iterate_nextRandom_inj (hr : tlbWiredSlots ≤ r.val) (hm : m < 56) (hn : n < 56)
    (heq : nextRandom^[m] r = nextRandom^[n] r) : m = n := by
  have hval := congrArg Fin.val heq
  rw [val_iterate_nextRandom hr hm.le, val_iterate_nextRandom hr hn.le] at hval
  have hlt := r.isLt
  simp only [tlbWiredSlots, tlbSlots] at *
  split_ifs at hval <;> omega

/-- Every slot that is not wired is on the orbit. -/
theorem exists_iterate_nextRandom (hr : tlbWiredSlots ≤ r.val) (hslot : tlbWiredSlots ≤ slot.val) :
    ∃ n < 56, nextRandom^[n] r = slot := by
  have hlt := r.isLt
  have hlt' := slot.isLt
  simp only [tlbWiredSlots, tlbSlots] at *
  by_cases hle : slot.val ≤ r.val
  · refine ⟨r.val - slot.val, by omega, Fin.ext ?_⟩
    rw [val_iterate_nextRandom hr (by omega), if_pos (by simp only [tlbWiredSlots]; omega)]
    omega
  · refine ⟨r.val + 56 - slot.val, by omega, Fin.ext ?_⟩
    rw [val_iterate_nextRandom hr (by omega), if_neg (by simp only [tlbWiredSlots]; omega)]
    omega

/-- One time round, each slot that is not wired is met once. -/
theorem count_iterate_nextRandom (hr : tlbWiredSlots ≤ r.val) (slot : Fin tlbSlots) :
    (List.iterate nextRandom r 56).count slot = if tlbWiredSlots ≤ slot.val then 1 else 0 := by
  rw [← List.range_map_iterate]
  split
  · next hslot =>
    obtain ⟨n, hn, hat⟩ := exists_iterate_nextRandom hr hslot
    refine List.count_eq_one_of_mem ?_ (List.mem_map.2 ⟨n, List.mem_range.2 hn, hat⟩)
    refine List.Nodup.map_on (fun m hm n hn heq => ?_) List.nodup_range
    exact iterate_nextRandom_inj hr (List.mem_range.1 hm) (List.mem_range.1 hn) heq
  · next hslot =>
    refine List.count_eq_zero.2 fun hmem => hslot ?_
    obtain ⟨n, -, hat⟩ := List.mem_map.1 hmem
    rw [← hat]
    exact tlbWiredSlots_le_iterate hr n

end Orbit

/-! ## What acts do -/

variable {b b' : TlbBuffer} {a : TlbAct} {acts : List TlbAct} {slot : Fin tlbSlots}

theorem act_cases (h : b.act a = .ok b') :
    (∃ (slot : Fin tlbSlots) (e : TlbEntry), a = .write slot.val e ∧ b' = b.write slot e) ∨
      (∃ e, a = .writeRandom e ∧ b' = b.writeRandom e) ∨
        a = .flush ∧ b' = TlbDevice.flush b false := by
  cases a with
  | write n e =>
    change b.checkedWrite n e = .ok b' at h
    unfold checkedWrite at h
    split at h
    · next hn => exact .inl ⟨⟨n, hn⟩, e, rfl, (Except.ok.inj h).symm⟩
    · cases h
  | writeRandom e => exact .inr (.inl ⟨e, rfl, (Except.ok.inj h).symm⟩)
  | flush => exact .inr (.inr ⟨rfl, (Except.ok.inj h).symm⟩)

/-- Only a random write moves the register, to the next slot. -/
theorem random_act (h : b.act a = .ok b') :
    b'.random = if a.isRandom then nextRandom b.random else b.random := by
  obtain ⟨slot, e, rfl, rfl⟩ | ⟨e, rfl, rfl⟩ | ⟨rfl, rfl⟩ := act_cases h
  · rfl
  · rfl
  · exact b.random_flush false

theorem get_slots_act (h : b.act a = .ok b') (htarget : ¬ a.Targets slot)
    (hrandom : a.isRandom = true → b.random ≠ slot) : b'.slots.get slot = b.slots.get slot := by
  obtain ⟨slot', e, rfl, rfl⟩ | ⟨e, rfl, rfl⟩ | ⟨rfl, rfl⟩ := act_cases h
  · rw [get_slots_write, if_neg fun heq => htarget (congrArg Fin.val heq)]
  · rw [get_slots_writeRandom, if_neg (hrandom rfl)]
  · exact absurd trivial htarget

theorem run_cons_eq_ok_iff :
    b.run (a :: acts) = .ok b' ↔ ∃ b₁, b.act a = .ok b₁ ∧ b₁.run acts = .ok b' := by
  unfold run
  rw [List.foldlM_cons, bind_eq_ok_iff]

theorem run_append_eq_ok_iff {acts' : List TlbAct} :
    b.run (acts ++ acts') = .ok b' ↔ ∃ b₁, b.run acts = .ok b₁ ∧ b₁.run acts' = .ok b' := by
  unfold run
  rw [List.foldlM_append, bind_eq_ok_iff]

theorem hits_cons (h : b.act a = .ok b') :
    b.hits (a :: acts) = if a.isRandom then b.random :: b'.hits acts else b'.hits acts := by
  rw [hits, h]

/-- The register moves on with every random write among the acts. -/
theorem random_run (h : b.run acts = .ok b') : b'.random = nextRandom^[randoms acts] b.random := by
  induction acts generalizing b with
  | nil =>
    rw [← Except.ok.inj h]
    rfl
  | cons a acts ih =>
    obtain ⟨b₁, hact, hrun⟩ := run_cons_eq_ok_iff.1 h
    rw [ih hrun, random_act hact, TlbAct.randoms_cons]
    cases a.isRandom <;> rfl

/-- The random writes go along the orbit of the register. -/
theorem hits_eq_iterate (h : b.run acts = .ok b') :
    b.hits acts = List.iterate nextRandom b.random (randoms acts) := by
  induction acts generalizing b with
  | nil => rfl
  | cons a acts ih =>
    obtain ⟨b₁, hact, hrun⟩ := run_cons_eq_ok_iff.1 h
    rw [hits_cons hact, ih hrun, random_act hact, TlbAct.randoms_cons]
    cases a.isRandom <;> rfl

/-- A slot that is not written by its number and not hit keeps its entry. -/
theorem get_slots_run (h : b.run acts = .ok b') (htargets : ∀ a ∈ acts, ¬ a.Targets slot)
    (hhits : slot ∉ b.hits acts) : b'.slots.get slot = b.slots.get slot := by
  induction acts generalizing b with
  | nil => rw [← Except.ok.inj h]
  | cons a acts ih =>
    obtain ⟨b₁, hact, hrun⟩ := run_cons_eq_ok_iff.1 h
    obtain ⟨htarget, hrest⟩ := List.forall_mem_cons.1 htargets
    rw [hits_cons hact] at hhits
    have hlater : slot ∉ b₁.hits acts := by
      intro hmem
      split at hhits
      · exact hhits (List.mem_cons_of_mem _ hmem)
      · exact hhits hmem
    rw [ih hrun hrest hlater]
    refine get_slots_act hact htarget fun hrandom heq => ?_
    rw [if_pos hrandom, heq] at hhits
    exact hhits List.mem_cons_self

/-- An entry that was written at random stays in its slot through the next 55 random writes, wherever
the register was. -/
theorem get_slots_run_writeRandom {e : TlbEntry} (h : (b.writeRandom e).run acts = .ok b')
    (hrandoms : randoms acts ≤ 55) (htargets : ∀ a ∈ acts, ¬ a.Targets b.random) :
    b'.slots.get b.random = e := by
  have hself : (b.writeRandom e).slots.get b.random = e := by
    rw [get_slots_writeRandom, if_pos rfl]
  rw [get_slots_run h htargets, hself]
  rw [hits_eq_iterate h, ← List.range_map_iterate, List.mem_map]
  rintro ⟨n, hn, hback⟩
  have hback : nextRandom^[n + 1] b.random = b.random := hback
  have hlt := List.mem_range.1 hn
  exact iterate_nextRandom_ne n.succ_pos (by omega) hback

/-! ## Going round -/

theorem roundRobin_of_unwired (hr : tlbWiredSlots ≤ b.random.val) : b.RoundRobin where
  writes_unwired := ⟨hr, fun e slot => b.get_slots_writeRandom e slot⟩
  wired_eq acts b' h slot hwired htargets := by
    refine get_slots_run h htargets fun hmem => ?_
    rw [hits_eq_iterate h, ← List.range_map_iterate] at hmem
    obtain ⟨n, -, rfl⟩ := List.mem_map.1 hmem
    exact absurd (tlbWiredSlots_le_iterate hr n) (Nat.not_le.2 hwired)
  stays e acts b' h := get_slots_run_writeRandom h
  overwrites e acts b' h hrandoms e' slot := by
    have hback : b'.random = b.random := by
      rw [random_run h, hrandoms]
      change nextRandom^[55] (nextRandom b.random) = b.random
      rw [← Function.iterate_succ_apply, iterate_nextRandom_56 hr]
    rw [get_slots_writeRandom, hback]
  each_once acts b' h hrandoms slot := by
    rw [hits_eq_iterate h, hrandoms]
    exact count_iterate_nextRandom hr slot

/-- Whatever is done to a TLB that starts out invalid, random writes go round from there. -/
theorem roundRobin_of_run (h : empty.run acts = .ok b) : b.RoundRobin := by
  refine roundRobin_of_unwired ?_
  rw [random_run h]
  exact tlbWiredSlots_le_iterate (by decide) _

/-! ## Refills -/

/-- An address that a slot matches is a hit. -/
theorem isSome_of_match {a : VirtualAddress} (h : (b.slots.get slot).isMatch a = true) :
    (b.probe a).isSome = true ∧ (b.translate a).isSome = true := by
  constructor
  · by_contra hmiss
    rw [isMatch_of_probe (Option.not_isSome_iff_eq_none.1 hmiss)] at h
    cases h
  · by_contra hmiss
    have hnone := List.findSome?_eq_none_iff.1 (Option.not_isSome_iff_eq_none.1 hmiss)
      (b.slots.get slot) (Vector.mem_toList_iff.2 (Vector.getElem_mem slot.isLt))
    have hvalid := (TlbEntry.isMatch_iff.1 h).1
    unfold TlbEntry.translate PageEntry.translate at hnone
    rw [if_pos h, if_pos hvalid] at hnone
    cases hnone

/-- Entries that match the addresses were written at random, one after another. -/
def Refilled (b : TlbBuffer) (as : List VirtualAddress) (b' : TlbBuffer) : Prop :=
  ∃ refills : List (VirtualAddress × TlbEntry), refills.map Prod.fst = as ∧
    (∀ x ∈ refills, x.2.isMatch x.1 = true) ∧
      b.run (refills.map fun x => .writeRandom x.2) = .ok b'

namespace Refilled

variable {as as' : List VirtualAddress} {b'' : TlbBuffer}

theorem refl (b : TlbBuffer) : b.Refilled [] b := ⟨[], rfl, fun _ hx => absurd hx List.not_mem_nil, rfl⟩

theorem writeRandom {a : VirtualAddress} {e : TlbEntry} (he : e.isMatch a = true) :
    b.Refilled [a] (b.writeRandom e) := by
  refine ⟨[(a, e)], rfl, fun x hx => ?_, rfl⟩
  rw [List.mem_singleton.1 hx]
  exact he

theorem trans (h : b.Refilled as b') (h' : b'.Refilled as' b'') : b.Refilled (as ++ as') b'' := by
  obtain ⟨refills, rfl, hmatch, hrun⟩ := h
  obtain ⟨refills', rfl, hmatch', hrun'⟩ := h'
  refine ⟨refills ++ refills', List.map_append, fun x hx => ?_, ?_⟩
  · exact (List.mem_append.1 hx).elim (hmatch x) (hmatch' x)
  · rw [List.map_append, run_append_eq_ok_iff]
    exact ⟨b', hrun, hrun'⟩

/-- After no more refills than there are slots that are not wired, all of their addresses are hits. -/
theorem isSome (h : b.Refilled as b') (hlen : as.length ≤ 56) {a : VirtualAddress} (ha : a ∈ as) :
    (b'.probe a).isSome = true ∧ (b'.translate a).isSome = true := by
  obtain ⟨refills, rfl, hmatch, hrun⟩ := h
  obtain ⟨⟨a, e⟩, hmem, rfl⟩ := List.mem_map.1 ha
  obtain ⟨older, newer, rfl⟩ := List.append_of_mem hmem
  rw [List.map_append, List.map_cons, run_append_eq_ok_iff] at hrun
  obtain ⟨b₁, -, hrun⟩ := hrun
  obtain ⟨b₂, hact, hrun⟩ := run_cons_eq_ok_iff.1 hrun
  obtain rfl : b₁.writeRandom e = b₂ := Except.ok.inj hact
  have hstays : b'.slots.get b₁.random = e := by
    refine get_slots_run_writeRandom hrun ?_ fun a ha => ?_
    · refine List.countP_le_length.trans ?_
      simp only [List.length_map, List.length_append, List.length_cons] at hlen ⊢
      omega
    · obtain ⟨x, -, rfl⟩ := List.mem_map.1 ha
      exact id
  have hslot : (b'.slots.get b₁.random).isMatch a = true := by
    rw [hstays]
    exact hmatch (a, e) hmem
  exact isSome_of_match hslot

end Refilled

end TlbBuffer

end SoftPaging
