import Mathlib
import SoftPaging.Tlb.Mmu

/-!
# The interrupt line and its guards

An MMU shares its interrupt line with whoever holds a guard over it. A `HeldMmu` is an MMU together with
the guards that are held, and a `LineAct` is what may be done to the line: it is switched off or put into
a state, a guard is taken or given up, or the MMU writes its TLB under a guard of its own.

When guards are given up newest first, and the line is otherwise left to the MMU, guards nest
(`HeldMmu.Nests`): the line is off while one is held and whenever the TLB is written, each puts back what
it found, and the windows are those that were opened outside of all others. What carries this is that
every guard but the oldest found the line off (`HeldMmu.Layered`).
-/

namespace SoftPaging

variable {τ : Type}

/-- An MMU and the guards that are held over its interrupt line, the newest first. -/
structure HeldMmu (τ : Type) where
  mmu : Mmu τ
  guards : List InterruptHold

/-- What is done to the interrupt line of an MMU. -/
inductive LineAct where
  | disable
  | restore (enabled : Bool)
  /-- Takes a guard. -/
  | hold
  /-- Gives up the guard with so many newer ones. -/
  | release (i : Nat)
  | install (e : TlbEntry)
  | flush

/-- Hands a write to a device. -/
def TlbDevice.receive [TlbDevice τ] (t : τ) (w : TlbWrite) : τ :=
  match w.slot? with
  | some slot => TlbDevice.write t w.interruptsOn slot w.entry
  | none => TlbDevice.writeRandom t w.interruptsOn w.entry

namespace LineAct

/-- Guards are given up newest first, and the line is otherwise left to the MMU. -/
def Nested : LineAct → Prop
  | hold | install _ | flush => True
  | release i => i = 0
  | disable | restore _ => False

instance : DecidablePred Nested
  | hold | install _ | flush => inferInstanceAs (Decidable True)
  | release i => inferInstanceAs (Decidable (i = 0))
  | disable | restore _ => inferInstanceAs (Decidable False)

/-- Whether a window of the line may begin with the act: a guard is taken, by the MMU or for itself. -/
def begins : LineAct → Bool
  | hold | install _ | flush => true
  | _ => false

/-- The writes to the TLB that belong to the act, as they are when interrupts are off. -/
def writes : LineAct → List TlbWrite
  | install e => [⟨none, e, false⟩]
  | flush => (List.finRange tlbSlots).map fun slot => ⟨some slot, .invalid slot.val, false⟩
  | _ => []

/-- How many guards there are after the act on top of some others, when there were `d` before; none when
one of the others was given up. -/
def depthAfter : LineAct → Nat → Option Nat
  | hold, d => some (d + 1)
  | release _, 0 => none
  | release _, d + 1 => some d
  | _, d => some d

/-- The same for a sequence of acts. -/
def depth (acts : List LineAct) (d : Nat) : Option Nat := acts.foldlM (fun d a => a.depthAfter d) d

/-- The newest guard that is held after `acts` was taken right after `before`. -/
def Took (acts before : List LineAct) : Prop :=
  ∃ since, acts = before ++ hold :: since ∧ depth since 0 = some 0

end LineAct

namespace HeldMmu

open LineAct (Nested depth Took)

/-- Whether interrupts are on. -/
abbrev enabled (g : HeldMmu τ) : Bool := g.mmu.interrupts.enabled

/-- A guard is taken for which interrupts are on and no other is held. -/
def outermost (g : HeldMmu τ) (a : LineAct) : Bool := a.begins && g.guards.isEmpty && g.enabled

/-- The oldest guard found the line in the state in which all began and the others found it off; it is
off while a guard is held. -/
structure Layered (start : Bool) (g : HeldMmu τ) : Prop where
  guards_eq : g.guards = [] ∨ ∃ n, g.guards = List.replicate n ⟨false⟩ ++ [⟨start⟩]
  enabled_eq : g.enabled = (g.guards.isEmpty && start)

theorem layered_start (m : Mmu τ) : Layered m.interrupts.enabled ⟨m, []⟩ := ⟨.inl rfl, rfl⟩

theorem Layered.enabled_of_held {g : HeldMmu τ} {start : Bool} (h : g.Layered start)
    (hheld : g.guards ≠ []) : g.enabled = false := by
  rw [h.enabled_eq, List.isEmpty_eq_false_iff.2 hheld, Bool.false_and]

/-- No window opens for a line that was off from the start. -/
theorem Layered.outermost_eq_false {g : HeldMmu τ} (h : g.Layered false) (a : LineAct) :
    g.outermost a = false := by
  simp [outermost, h.enabled_eq]

variable [TlbDevice τ]

/-- Does something to the line; nothing happens when there is no such guard. -/
def step (g : HeldMmu τ) : LineAct → HeldMmu τ
  | .disable => ⟨⟨g.mmu.tlb, g.mmu.interrupts.disable.2⟩, g.guards⟩
  | .restore enabled => ⟨⟨g.mmu.tlb, g.mmu.interrupts.restore enabled⟩, g.guards⟩
  | .hold => ⟨⟨g.mmu.tlb, g.mmu.interrupts.hold.2⟩, g.mmu.interrupts.hold.1 :: g.guards⟩
  | .release i =>
    match g.guards[i]? with
    | some guard => ⟨⟨g.mmu.tlb, g.mmu.interrupts.release guard⟩, g.guards.eraseIdx i⟩
    | none => g
  | .install e => ⟨g.mmu.install e, g.guards⟩
  | .flush => ⟨g.mmu.flush, g.guards⟩

/-- Does one thing after another. -/
def steps (g : HeldMmu τ) (acts : List LineAct) : HeldMmu τ := acts.foldl step g

/-- How many of the acts satisfy `q` at the time they are done. -/
def tally (q : HeldMmu τ → LineAct → Bool) (g : HeldMmu τ) : List LineAct → Nat
  | [] => 0
  | a :: acts => (if q g a then 1 else 0) + tally q (g.step a) acts

/-- What becomes of an MMU over whose line no guard was held. -/
def after (m : Mmu τ) (acts : List LineAct) : HeldMmu τ := steps ⟨m, []⟩ acts

/-- Guards nest around every write to the TLB. -/
structure Nests (m : Mmu τ) (acts : List LineAct) : Prop where
  /-- Whatever the device is, what it receives are the writes of the acts, with interrupts off. -/
  tlb_eq : (after m acts).mmu.tlb = (acts.flatMap LineAct.writes).foldl TlbDevice.receive m.tlb
  writes_off : ∀ w ∈ acts.flatMap LineAct.writes, w.interruptsOn = false
  held_off : (after m acts).guards ≠ [] → (after m acts).enabled = false
  /-- A guard that is held was taken once, and giving it up leaves the line as it was right before. -/
  took : (after m acts).guards ≠ [] → ∃ before, Took acts before
  released : ∀ before, Took acts before →
    (after m (acts ++ [.release 0])).enabled = (after m before).enabled ∧
      (after m (acts ++ [.release 0])).guards = (after m before).guards
  restored : (after m acts).guards = [] → (after m acts).enabled = m.interrupts.enabled
  windows_eq : (after m acts).mmu.interrupts.windows =
    m.interrupts.windows + tally outermost ⟨m, []⟩ acts
  windows_of_off : m.interrupts.enabled = false →
    (after m acts).mmu.interrupts.windows = m.interrupts.windows

variable {g : HeldMmu τ} {a : LineAct} {acts acts' : List LineAct} {start : Bool}

@[simp] theorem steps_cons (g : HeldMmu τ) (a : LineAct) (acts : List LineAct) :
    g.steps (a :: acts) = (g.step a).steps acts := rfl

theorem steps_append (g : HeldMmu τ) (acts acts' : List LineAct) :
    g.steps (acts ++ acts') = (g.steps acts).steps acts' := List.foldl_append

theorem step_release_of_some {i : Nat} {guard : InterruptHold} (h : g.guards[i]? = some guard) :
    g.step (.release i) =
      ⟨⟨g.mmu.tlb, g.mmu.interrupts.release guard⟩, g.guards.eraseIdx i⟩ := by
  simp only [step, h]

theorem step_release_of_none {i : Nat} (h : g.guards[i]? = none) : g.step (.release i) = g := by
  simp only [step, h]

theorem step_release_zero {guard : InterruptHold} {lower : List InterruptHold}
    (h : g.guards = guard :: lower) :
    g.step (.release 0) = ⟨⟨g.mmu.tlb, g.mmu.interrupts.release guard⟩, lower⟩ := by
  rw [step_release_of_some (by rw [h]; rfl), h, List.eraseIdx_cons_zero]

/-! ## Writes to the TLB -/

theorem tlb_step (g : HeldMmu τ) (a : LineAct) :
    (g.step a).mmu.tlb = a.writes.foldl TlbDevice.receive g.mmu.tlb := by
  cases a with
  | release i =>
    cases h : g.guards[i]? with
    | none => rw [step_release_of_none h]; rfl
    | some guard => rw [step_release_of_some h]; rfl
  | flush =>
    rw [LineAct.writes, List.foldl_map]
    rfl
  | _ => rfl

/-- A TLB is written with interrupts off only. -/
theorem tlb_steps (g : HeldMmu τ) (acts : List LineAct) :
    (g.steps acts).mmu.tlb = (acts.flatMap LineAct.writes).foldl TlbDevice.receive g.mmu.tlb := by
  induction acts generalizing g with
  | nil => rfl
  | cons a acts ih => rw [steps_cons, ih, tlb_step, List.flatMap_cons, List.foldl_append]

theorem interruptsOn_of_mem_writes {w : TlbWrite} (h : w ∈ a.writes) : w.interruptsOn = false := by
  cases a with
  | install e =>
    rw [List.mem_singleton.1 h]
  | flush =>
    obtain ⟨slot, -, rfl⟩ := List.mem_map.1 h
    rfl
  | _ => cases h

/-! ## Layers of guards -/

namespace Layered

/-- The newest guard takes its layer away. -/
theorem release (h : g.Layered start) : (g.step (.release 0)).Layered start := by
  rcases h.guards_eq with hnone | ⟨n, hguards⟩
  · rw [step_release_of_none (by rw [hnone]; rfl)]
    exact h
  · cases n with
    | zero =>
      rw [step_release_zero hguards]
      exact ⟨.inl rfl, (Bool.true_and start).symm⟩
    | succ n =>
      rw [step_release_zero hguards]
      exact ⟨.inr ⟨n, rfl⟩, by cases n <;> rfl⟩

theorem step (h : g.Layered start) (ha : a.Nested) : (g.step a).Layered start := by
  cases a with
  | hold =>
    refine ⟨.inr ?_, rfl⟩
    rcases h.guards_eq with hnone | ⟨n, hguards⟩
    · refine ⟨0, ?_⟩
      show ⟨g.enabled⟩ :: g.guards = _
      rw [h.enabled_eq, hnone]
      rfl
    · refine ⟨n + 1, ?_⟩
      show ⟨g.enabled⟩ :: g.guards = _
      rw [h.enabled_of_held (by simp [hguards]), hguards]
      rfl
  | release i =>
    obtain rfl : i = 0 := ha
    exact h.release
  | install e => exact ⟨h.guards_eq, h.enabled_eq⟩
  | flush => exact ⟨h.guards_eq, h.enabled_eq⟩
  | disable => exact ha.elim
  | restore b => exact ha.elim

/-- A window is opened by each outermost guard and by nothing else. -/
theorem windows_step (h : g.Layered start) (ha : a.Nested) :
    (g.step a).mmu.interrupts.windows =
      g.mmu.interrupts.windows + if g.outermost a then 1 else 0 := by
  have hopen (hbegins : a.begins = true) (hwindows : (g.step a).mmu.interrupts.windows =
      if g.enabled then g.mmu.interrupts.windows + 1 else g.mmu.interrupts.windows) :
      (g.step a).mmu.interrupts.windows =
        g.mmu.interrupts.windows + if g.outermost a then 1 else 0 := by
    rw [hwindows]
    unfold outermost
    rw [hbegins, Bool.true_and, h.enabled_eq]
    cases g.guards.isEmpty <;> cases start <;> rfl
  cases a with
  | release i =>
    cases h : g.guards[i]? with
    | none => rw [step_release_of_none h]; rfl
    | some guard => rw [step_release_of_some h]; rfl
  | disable => exact ha.elim
  | restore b => exact ha.elim
  | _ => exact hopen rfl rfl

theorem steps (h : g.Layered start) (hacts : ∀ a ∈ acts, a.Nested) :
    (g.steps acts).Layered start ∧ (g.steps acts).mmu.interrupts.windows =
      g.mmu.interrupts.windows + tally outermost g acts := by
  induction acts generalizing g with
  | nil => exact ⟨h, rfl⟩
  | cons a acts ih =>
    obtain ⟨ha, hrest⟩ := List.forall_mem_cons.1 hacts
    obtain ⟨hlayered, hwindows⟩ := ih (h.step ha) hrest
    refine ⟨hlayered, ?_⟩
    rw [steps_cons, hwindows, h.windows_step ha, tally, Nat.add_assoc]

/-- What never happens to layered guards is never counted. -/
theorem tally_eq_zero {q : HeldMmu τ → LineAct → Bool}
    (hq : ∀ g : HeldMmu τ, g.Layered start → ∀ a : LineAct, a.Nested → q g a = false)
    (h : g.Layered start) (hacts : ∀ a ∈ acts, a.Nested) : tally q g acts = 0 := by
  induction acts generalizing g with
  | nil => rfl
  | cons a acts ih =>
    obtain ⟨ha, hrest⟩ := List.forall_mem_cons.1 hacts
    rw [tally, ih (h.step ha) hrest, hq g h a ha]
    rfl

end Layered

/-! ## The guard that is given up -/

theorem depth_append (acts acts' : List LineAct) (d : Nat) :
    depth (acts ++ acts') d = (depth acts d).bind (depth acts') := List.foldlM_append

/-- The guards below those on top stay as they are. -/
theorem guards_step {upper lower : List InterruptHold} {n : Nat} (hguards : g.guards = upper ++ lower)
    (ha : a.Nested) (hdepth : a.depthAfter upper.length = some n) :
    ∃ upper', upper'.length = n ∧ (g.step a).guards = upper' ++ lower := by
  cases a with
  | hold =>
    refine ⟨⟨g.enabled⟩ :: upper, Option.some.inj hdepth, ?_⟩
    show ⟨g.enabled⟩ :: g.guards = _
    rw [hguards, List.cons_append]
  | release i =>
    obtain rfl : i = 0 := ha
    cases upper with
    | nil => cases hdepth
    | cons guard upper =>
      refine ⟨upper, Option.some.inj hdepth, ?_⟩
      rw [step_release_zero hguards]
      rfl
  | install e => exact ⟨upper, Option.some.inj hdepth, hguards⟩
  | flush => exact ⟨upper, Option.some.inj hdepth, hguards⟩
  | disable => exact ha.elim
  | restore b => exact ha.elim

theorem guards_steps {upper lower : List InterruptHold} {n : Nat} (hguards : g.guards = upper ++ lower)
    (hacts : ∀ a ∈ acts, a.Nested) (hdepth : depth acts upper.length = some n) :
    ∃ upper', upper'.length = n ∧ (g.steps acts).guards = upper' ++ lower := by
  induction acts generalizing g upper with
  | nil => exact ⟨upper, Option.some.inj hdepth, hguards⟩
  | cons a acts ih =>
    obtain ⟨ha, hrest⟩ := List.forall_mem_cons.1 hacts
    obtain ⟨d, hd, hdepth⟩ := Option.bind_eq_some_iff.1 hdepth
    obtain ⟨upper', rfl, hguards'⟩ := guards_step hguards ha hd
    exact ih hguards' hrest hdepth

/-- Giving up the newest guard leaves the line, and the other guards, as they were when it was taken. -/
theorem release_of_took (g : HeldMmu τ) {before : List LineAct} (hacts : ∀ a ∈ acts, a.Nested)
    (htook : Took acts before) :
    (g.steps (acts ++ [.release 0])).enabled = (g.steps before).enabled ∧
      (g.steps (acts ++ [.release 0])).guards = (g.steps before).guards := by
  obtain ⟨since, rfl, hdepth⟩ := htook
  have hsince : ∀ a ∈ since, a.Nested := fun a ha =>
    hacts a (List.mem_append_right _ (List.mem_cons_of_mem _ ha))
  have htaken : ((g.steps before).step .hold).guards =
      [] ++ (⟨(g.steps before).enabled⟩ :: (g.steps before).guards) := rfl
  obtain ⟨upper, hupper, hguards⟩ := guards_steps htaken hsince hdepth
  rw [List.eq_nil_of_length_eq_zero hupper, List.nil_append] at hguards
  have hrelease : g.steps (before ++ .hold :: since ++ [.release 0]) =
      (((g.steps before).step .hold).steps since).step (.release 0) := by
    rw [steps_append, steps_append, steps_cons]
    rfl
  rw [hrelease, step_release_zero hguards]
  exact ⟨rfl, rfl⟩

/-- Every guard that is held was taken once, and those newer than it were taken since. -/
theorem exists_took (m : Mmu τ) (hacts : ∀ a ∈ acts, a.Nested) {i : Nat}
    (hi : i < (after m acts).guards.length) :
    ∃ before since, acts = before ++ .hold :: since ∧ depth since 0 = some i := by
  induction acts using List.reverseRecOn generalizing i with
  | nil => exact absurd hi (Nat.not_lt_zero i)
  | append_singleton acts a ih =>
    have hstep : after m (acts ++ [a]) = (after m acts).step a := steps_append _ _ _
    have ha : a.Nested := hacts a (List.mem_append_right _ List.mem_cons_self)
    -- a guard that was there before stays, with the depth that the act gives it
    have hkeep {j : Nat} (hj : j < (after m acts).guards.length)
        (hdepth : a.depthAfter j = some i) :
        ∃ before since, acts ++ [a] = before ++ .hold :: since ∧ depth since 0 = some i := by
      obtain ⟨before, since, hsplit, hd⟩ :=
        ih (fun b hb => hacts b (List.mem_append_left _ hb)) hj
      refine ⟨before, since ++ [a], ?_, ?_⟩
      · rw [hsplit, List.append_assoc, List.cons_append]
      · rw [depth_append, hd]
        show a.depthAfter j >>= _ = _
        rw [hdepth]
        rfl
    rw [hstep] at hi
    cases a with
    | hold =>
      cases i with
      | zero => exact ⟨acts, [], rfl, rfl⟩
      | succ i => exact hkeep (Nat.lt_of_succ_lt_succ hi) rfl
    | release n =>
      obtain rfl : n = 0 := ha
      refine hkeep (j := i + 1) ?_ rfl
      cases hguards : (after m acts).guards with
      | nil =>
        rw [step_release_of_none (by rw [hguards]; rfl), hguards] at hi
        exact absurd hi (Nat.not_lt_zero i)
      | cons guard lower =>
        rw [step_release_zero hguards] at hi
        exact Nat.succ_lt_succ hi
    | install e => exact hkeep hi rfl
    | flush => exact hkeep hi rfl
    | disable => exact ha.elim
    | restore b => exact ha.elim

/-- Whoever gives guards up newest first has the line off around every write to the TLB, finds it again as
it was, and opens the outermost windows only. -/
theorem guards_nest (m : Mmu τ) (hacts : ∀ a ∈ acts, a.Nested) : Nests m acts := by
  obtain ⟨hlayered, hwindows⟩ := (layered_start m).steps hacts
  refine
    { tlb_eq := tlb_steps _ acts
      writes_off := fun w hw => ?writes_off
      held_off := hlayered.enabled_of_held
      took := fun hheld => ?took
      released := fun before htook => release_of_took _ hacts htook
      restored := fun hnone => ?restored
      windows_eq := hwindows
      windows_of_off := fun hoff => ?windows_of_off }
  case writes_off =>
    obtain ⟨a, -, hw⟩ := List.mem_flatMap.1 hw
    exact interruptsOn_of_mem_writes hw
  case took => exact exists_took m hacts (List.length_pos_of_ne_nil hheld)
  case restored =>
    have henabled := hlayered.enabled_eq
    rwa [show (steps ⟨m, []⟩ acts).guards = [] from hnone, List.isEmpty_nil, Bool.true_and]
      at henabled
  case windows_of_off =>
    have hstart : Layered false ⟨m, []⟩ := hoff ▸ layered_start m
    have hnone : tally outermost ⟨m, []⟩ acts = 0 :=
      hstart.tally_eq_zero (fun _ h a _ => h.outermost_eq_false a) hacts
    exact hwindows.trans (by rw [hnone, Nat.add_zero])

/-- Two guards, one inside the other, with a flush in the inner one and an install after both, open two
windows. -/
theorem nested_guards_nest :
    let acts : List LineAct :=
      [.hold, .install (.invalid 1), .hold, .flush, .release 0, .release 0, .install (.invalid 2)]
    (∀ a ∈ acts, a.Nested) ∧ Nests (⟨⟨#[]⟩, .initial⟩ : Mmu TlbRecorder) acts ∧
      (after (⟨⟨#[]⟩, .initial⟩ : Mmu TlbRecorder) acts).mmu.interrupts = ⟨true, 2⟩ :=
  ⟨by decide, guards_nest _ (by decide), by decide⟩

end HeldMmu

end SoftPaging
