import Mathlib
import SoftPaging.Proofs.Tlb.Interrupts

/-!
# How often the interrupt line falls

The windows of an interrupt line are counted where it is switched off, and a line may also be put into a
state that is off. The number of times that it goes from on to off is told from what the line is asked
for, one thing after another (`Interrupts.falls`), and it is the number of windows and of strays: acts
that put back a state that is off while the line is on (`HeldMmu.falls_eq_windows_add_strays`).

Guards that are given up newest first have no strays. A guard that was taken inside another has one as
soon as it is given up after the other.
-/

namespace SoftPaging

variable {τ : Type}

/-- What the interrupt line is asked for when something is done to it. -/
inductive LineOp where
  | disable
  | restore (enabled : Bool)

namespace Interrupts

/-- Does what the line is asked for. -/
def does (i : Interrupts) : LineOp → Interrupts
  | .disable => i.disable.2
  | .restore enabled => i.restore enabled

/-- How often the line goes from on to off. -/
def falls (i : Interrupts) : List LineOp → Nat
  | [] => 0
  | op :: ops => (if i.enabled && !(i.does op).enabled then 1 else 0) + falls (i.does op) ops

end Interrupts

namespace LineAct

/-- Whether the act puts the line into a state of before. -/
def putsBack : LineAct → Bool
  | restore _ | release _ => true
  | _ => false

end LineAct

namespace HeldMmu

/-- An MMU whose interrupt line is new. -/
def fresh (tlb : τ) : HeldMmu τ := ⟨⟨tlb, .initial⟩, []⟩

variable [TlbDevice τ]

/-- What the line is asked for in an act: a write to the TLB holds the line and gives it up. -/
def ops (g : HeldMmu τ) : LineAct → List LineOp
  | .disable | .hold => [.disable]
  | .restore enabled => [.restore enabled]
  | .release i => (g.guards[i]?).toList.map fun guard => .restore guard.wasEnabled
  | .install _ | .flush => [.disable, .restore g.enabled]

/-- What it is asked for in one act after another. -/
def allOps (g : HeldMmu τ) : List LineAct → List LineOp
  | [] => []
  | a :: acts => g.ops a ++ (g.step a).allOps acts

/-- The act puts back a state that is off while the line is on. -/
def stray (g : HeldMmu τ) (a : LineAct) : Bool := a.putsBack && g.enabled && !(g.step a).enabled

variable {g : HeldMmu τ} {a : LineAct} {acts : List LineAct} {start : Bool}

theorem interrupts_step (g : HeldMmu τ) (a : LineAct) :
    (g.step a).mmu.interrupts = (g.ops a).foldl Interrupts.does g.mmu.interrupts := by
  cases a with
  | release i =>
    cases h : g.guards[i]? with
    | none => rw [step_release_of_none h, ops, h]; rfl
    | some guard => rw [step_release_of_some h, ops, h]; rfl
  | _ => rfl

theorem interrupts_steps (g : HeldMmu τ) (acts : List LineAct) :
    (g.steps acts).mmu.interrupts = (g.allOps acts).foldl Interrupts.does g.mmu.interrupts := by
  induction acts generalizing g with
  | nil => rfl
  | cons a acts ih => rw [steps_cons, ih, interrupts_step, allOps, List.foldl_append]

theorem falls_append (i : Interrupts) (ops ops' : List LineOp) :
    i.falls (ops ++ ops') = i.falls ops + (ops.foldl Interrupts.does i).falls ops' := by
  induction ops generalizing i with
  | nil => exact (Nat.zero_add _).symm
  | cons op ops ih =>
    rw [List.cons_append, Interrupts.falls, ih, Interrupts.falls, List.foldl_cons, Nat.add_assoc]

/-- Only what puts a state back makes the line fall without opening a window. -/
theorem falls_step (g : HeldMmu τ) (a : LineAct) :
    g.mmu.interrupts.windows + g.mmu.interrupts.falls (g.ops a) =
      (g.step a).mmu.interrupts.windows + if g.stray a then 1 else 0 := by
  obtain ⟨⟨tlb, ⟨enabled, windows⟩⟩, guards⟩ := g
  cases a with
  | release i =>
    cases h : guards[i]? with
    | none =>
      rw [stray, step_release_of_none h, ops, h]
      cases enabled <;> rfl
    | some guard =>
      obtain ⟨wasEnabled⟩ := guard
      rw [stray, step_release_of_some h, ops, h]
      cases enabled <;> cases wasEnabled <;> rfl
  | restore b => cases enabled <;> cases b <;> rfl
  | _ => cases enabled <;> rfl

theorem falls_steps (g : HeldMmu τ) (acts : List LineAct) :
    g.mmu.interrupts.windows + g.mmu.interrupts.falls (g.allOps acts) =
      (g.steps acts).mmu.interrupts.windows + tally stray g acts := by
  induction acts generalizing g with
  | nil => rfl
  | cons a acts ih =>
    have hstep := g.falls_step a
    have hrest := ih (g.step a)
    rw [allOps, falls_append, ← interrupts_step, steps_cons, tally]
    omega

/-- A guard is held only while the line is off. -/
theorem Layered.stray_eq_false (h : g.Layered start) (ha : a.Nested) : g.stray a = false := by
  cases a with
  | release i =>
    obtain rfl : i = 0 := ha
    cases hguards : g.guards with
    | nil =>
      rw [stray, step_release_of_none (by rw [hguards]; rfl), Bool.and_assoc, Bool.and_not_self,
        Bool.and_false]
    | cons guard lower =>
      rw [stray, h.enabled_of_held (by rw [hguards]; exact List.cons_ne_nil _ _), Bool.and_false,
        Bool.false_and]
  | restore b => exact ha.elim
  | _ => rfl

/-- The line falls once for each window and once for each act that puts it off while it is on. Guards that
are given up newest first do not, so that the windows are all of its falls. -/
theorem falls_eq_windows_add_strays (tlb : τ) (acts : List LineAct) :
    ((fresh tlb).steps acts).mmu.interrupts =
        ((fresh tlb).allOps acts).foldl Interrupts.does .initial ∧
      Interrupts.initial.falls ((fresh tlb).allOps acts) =
        ((fresh tlb).steps acts).mmu.interrupts.windows + tally stray (fresh tlb) acts ∧
      ((∀ a ∈ acts, a.Nested) → Interrupts.initial.falls ((fresh tlb).allOps acts) =
        ((fresh tlb).steps acts).mmu.interrupts.windows) := by
  have hfalls : Interrupts.initial.falls ((fresh tlb).allOps acts) =
      ((fresh tlb).steps acts).mmu.interrupts.windows + tally stray (fresh tlb) acts :=
    (Nat.zero_add _).symm.trans (falls_steps (fresh tlb) acts)
  refine ⟨interrupts_steps _ acts, hfalls, fun hacts => ?_⟩
  have hnone : tally stray (fresh tlb) acts = 0 :=
    (layered_start ⟨tlb, .initial⟩).tally_eq_zero (fun _ h _ ha => h.stray_eq_false ha) hacts
  rw [hfalls, hnone, Nat.add_zero]

/-- A line that is put off and on again, and two guards that are given up oldest first, are three falls and
one window. -/
theorem outlived_guard_falls_unseen :
    let acts : List LineAct :=
      [.restore false, .restore true, .hold, .hold, .release 1, .release 0]
    ((fresh (⟨#[]⟩ : TlbRecorder)).steps acts).mmu.interrupts = ⟨false, 1⟩ ∧
      Interrupts.initial.falls ((fresh (⟨#[]⟩ : TlbRecorder)).allOps acts) = 3 := by
  decide

end HeldMmu

end SoftPaging
