import Mathlib
import SoftPaging.Proofs.Session.Spaces
import SoftPaging.Proofs.Space.Bringing

/-!
# Faults in any order

Several faults in one space, with enough free frames for all the pages they ask for, come to the same
whatever their order (`faults_commute`): each is answered the same, and what is resident afterwards,
with which flags and with which contents, is the same too; only which frames it lies in may differ.

The order does not matter because it does not occur in what is said of a run. How a fault is answered
is decided by the fault alone (`AddressSpace.verdict`), and after some of the faults the space is told
by the set of pages they asked for (`AddressSpace.pagesOf`): these were brought in. What the faults
still to come need is what the whole set needs, less what was spent on the pages so far.
-/

namespace SoftPaging

open Outcome

/-- A fault at an address, with the code of its kind. -/
structure Fault where
  code : Nat
  address : VirtualAddress
deriving DecidableEq

namespace AddressSpace

variable {sp : AddressSpace} {f : Fault} {fs fs' : List Fault} {p : FramePool} {ram : Ram}

/-- The fault asks for a page that it may have. -/
def Serves (sp : AddressSpace) (f : Fault) : Prop := f.code < 2 ∧ sp.Reaches f.address

instance (sp : AddressSpace) : DecidablePred sp.Serves := fun _ => inferInstanceAs (Decidable (_ ∧ _))

/-- How a fault is answered when memory does not run out. -/
def verdict (sp : AddressSpace) (f : Fault) : Except Refusal Unit :=
  if 2 < f.code then .error .invalidFault
  else if f.code = 2 then .error .permissionViolation
  else if ¬ sp.Reaches f.address then .error .badAddress
  else .ok ()

/-- The pages that the faults ask for, each given by its first address. -/
def pagesOf (sp : AddressSpace) (fs : List Fault) : Finset VirtualAddress :=
  ((fs.filter (sp.Serves ·)).map (·.address.pageBase)).toFinset

theorem pagesOf_perm (h : fs.Perm fs') : sp.pagesOf fs = sp.pagesOf fs' :=
  List.toFinset_eq_of_perm _ _ ((h.filter _).map _)

@[simp] theorem pagesOf_nil (sp : AddressSpace) : sp.pagesOf [] = ∅ := rfl

theorem pagesOf_cons (sp : AddressSpace) (f : Fault) (fs : List Fault) :
    sp.pagesOf (f :: fs) = sp.pagesOf [f] ∪ sp.pagesOf fs := by
  unfold pagesOf
  rw [← List.toFinset_append, ← List.map_append, ← List.filter_append, List.singleton_append]

theorem pagesOf_of_serves (h : sp.Serves f) : sp.pagesOf [f] = {f.address.pageBase} := by
  simp [pagesOf, h]

theorem pagesOf_of_not_serves (h : ¬ sp.Serves f) : sp.pagesOf [f] = ∅ := by
  simp [pagesOf, h]

/-- With frames for the page of its address, a fault is answered as the verdict says, and it is granted
just when it asks for a page that it may have. -/
theorem verdict_of_refusal
    (hroom : sp.Serves f → sp.table.need ram f.address ≤ p.freeFrames ram) :
    (faultRefusal? p ram (some sp) f.code f.address = none →
      sp.Serves f ∧ sp.verdict f = .ok ()) ∧
    ∀ cause, faultRefusal? p ram (some sp) f.code f.address = some cause →
      ¬ sp.Serves f ∧ sp.verdict f = .error cause := by
  unfold verdict
  rcases Nat.lt_trichotomy f.code 2 with hcode | hcode | hcode
  · rw [faultRefusal?_some hcode, if_neg (Nat.lt_asymm hcode), if_neg hcode.ne]
    by_cases hreach : sp.Reaches f.address
    · have hserves : sp.Serves f := ⟨hcode, hreach⟩
      simp [hreach, hserves, Nat.not_lt.2 (hroom hserves)]
    · have hserves : ¬ sp.Serves f := fun h => hreach h.2
      simp [hreach, hserves]
  · have hserves : ¬ sp.Serves f := fun h => h.1.ne hcode
    simp [hcode, hserves, faultRefusal?_two]
  · have hserves : ¬ sp.Serves f := fun h => Nat.lt_asymm hcode h.1
    simp [hcode, hserves, faultRefusal?_of_two_lt hcode]

end AddressSpace

namespace Session

variable {p : FramePool} {s s' s₀ : Session} {trace : List (Request × Bool)} {i : Nat}
  {sp : AddressSpace} {brought : Finset VirtualAddress} {fs fs' : List Fault}

/-- Services faults in a space, one after another, and answers what became of each. -/
def serviceAll (i : Nat) (fs : List Fault) : Act (List (Except Refusal Unit)) :=
  fs.mapM fun f => (perform (.fault (some i) f.code f.address)).attempt

/-- From the session `s` the faults in the space so far brought these pages in. -/
structure Served (p : FramePool) (s : Session) (i : Nat) (sp : AddressSpace)
    (brought : Finset VirtualAddress) (s' : Session) : Prop where
  sound : s'.Sound p
  object_eq : s'.object i = some (.space sp)
  brings : sp.Brings p s.kernel.ram brought s'.kernel.ram

/-! ## One fault -/

/-- A fault that is serviced brings in the page of its address, and one that is refused nothing. -/
theorem Sound.fault_served (h : s.Sound p) (ho : s.object i = some (.space sp)) (code : Nat)
    (a : VirtualAddress) :
    ((perform (.fault (some i) code a)).run s).Meets
      (fun _ s' => faultRefusal? p s.kernel.ram (some sp) code a = none ∧
        s.Served p i sp {a.pageBase} s')
      (fun cause s' => faultRefusal? p s.kernel.ram (some sp) code a = some cause ∧
        s.Served p i sp ∅ s') never := by
  have hrun : (perform (.fault (some i) code a)).run s = _ := run_onSpace ho _
  have hbrings : ((perform (.fault (some i) code a)).run s).Meets
      (fun _ s' => faultRefusal? p s.kernel.ram (some sp) code a = none ∧
        s'.object i = some (.space sp) ∧ sp.Brings p s.kernel.ram {a.pageBase} s'.kernel.ram)
      (fun cause s' => faultRefusal? p s.kernel.ram (some sp) code a = some cause ∧
        s'.object i = some (.space sp) ∧ sp.Brings p s.kernel.ram ∅ s'.kernel.ram) never := by
    rw [hrun]
    refine Outcome.Meets.andThen (op_meets (Transition.Meets.bind
      ((serviceFault_brings (h.take ho).2.1 (h.held ho (t := sp.table) rfl) code a s.mmu).mono
        (fun _ _ hQ => hQ) (fun _ _ hR => ⟨hR.1, ho, hR.2⟩) fun _ hH => hH) ?_))
    rintro mmu k ⟨hnone, hbrings⟩
    have hput : (s.withKernel k).put i (some (.space sp)) = s.withKernel k := put_object ho
    refine .done (.done ⟨hnone, ?_, hbrings⟩)
    rw [hput]
    exact ho
  refine (hbrings.and (h.perform_meets (r := .fault (some i) code a) trivial)).mono ?_ ?_
    fun _ hH => hH.1
  · rintro _ s' ⟨⟨hnone, ho', hbrings⟩, hfollows⟩
    exact ⟨hnone, hfollows.sound, ho', hbrings⟩
  · rintro cause s' ⟨⟨hcause, ho', hbrings⟩, hfollows⟩
    exact ⟨hcause, hfollows.sound, ho', hbrings⟩

namespace Served

theorem refl (h : s.Sound p) (ho : s.object i = some (.space sp)) : s.Served p i sp ∅ s :=
  ⟨h, ho, .refl sp p s.kernel.ram⟩

theorem trans {s'' : Session} {brought' : Finset VirtualAddress} (h : s.Served p i sp brought s')
    (h' : s'.Served p i sp brought' s'') : s.Served p i sp (brought ∪ brought') s'' :=
  ⟨h'.sound, h'.object_eq, h.brings.trans h'.brings⟩

/-- Where there were frames for these pages and for that of the address, there still are for that of
the address. -/
theorem need_le (h : s.Served p i sp brought s') {a : VirtualAddress}
    (hroom : sp.table.needs s.kernel.ram (brought ∪ {a.pageBase}) ≤ p.freeFrames s.kernel.ram) :
    sp.table.need s'.kernel.ram a ≤ p.freeFrames s'.kernel.ram := by
  have hbase : ∀ b ∈ ({a.pageBase} : Finset VirtualAddress), b.pageBase = b := by
    intro b hb
    rw [Finset.mem_singleton.1 hb, Address.pageBase_pageBase]
  have hneeds := h.brings.needs_union hbase
  have hspent := h.brings.freeFrames_eq
  rw [PageTable.needs_singleton] at hneeds
  omega

/-- One more fault is answered as its verdict says. -/
theorem fault (h : s.Served p i sp brought s') (f : Fault)
    (hroom : sp.table.needs s.kernel.ram (brought ∪ sp.pagesOf [f]) ≤ p.freeFrames s.kernel.ram) :
    ∃ s'', (perform (.fault (some i) f.code f.address)).attempt.run s' = .done (sp.verdict f) s'' ∧
      s.Served p i sp (brought ∪ sp.pagesOf [f]) s'' := by
  -- The frames were counted when nothing had been brought in; those for this fault are left.
  have hneed (hserves : sp.Serves f) :
      sp.table.need s'.kernel.ram f.address ≤ p.freeFrames s'.kernel.ram := by
    rw [AddressSpace.pagesOf_of_serves hserves] at hroom
    exact h.need_le hroom
  have hverdict := AddressSpace.verdict_of_refusal hneed
  have hmeets := h.sound.fault_served h.object_eq f.code f.address
  rw [Transition.run_attempt]
  cases hrun : (perform (.fault (some i) f.code f.address)).run s' with
  | done answer s'' =>
    obtain ⟨hnone, hserved⟩ := hmeets.of_done hrun
    obtain ⟨hserves, hok⟩ := hverdict.1 hnone
    refine ⟨s'', by rw [hok], ?_⟩
    rw [AddressSpace.pagesOf_of_serves hserves]
    exact h.trans hserved
  | refused cause s'' =>
    obtain ⟨hcause, hserved⟩ := hmeets.of_refused hrun
    obtain ⟨hserves, herror⟩ := hverdict.2 cause hcause
    refine ⟨s'', by rw [herror], ?_⟩
    rw [AddressSpace.pagesOf_of_not_serves hserves]
    exact h.trans hserved
  | halted cause => exact (hmeets.of_halted hrun).elim

/-! ## Every list of faults -/

/-- The faults to come are answered as their verdicts say, and what was brought in after them is what
all of them ask for. -/
theorem serviceAll (h : s.Served p i sp brought s')
    (hroom : sp.table.needs s.kernel.ram (brought ∪ sp.pagesOf fs) ≤ p.freeFrames s.kernel.ram) :
    ∃ s'', (serviceAll i fs).run s' = .done (fs.map sp.verdict) s'' ∧
      s.Served p i sp (brought ∪ sp.pagesOf fs) s'' := by
  -- The room is for what was brought in before and for all that is to come, so a fault in front
  -- moves from the one to the other.
  induction fs generalizing brought s' with
  | nil =>
    refine ⟨s', rfl, ?_⟩
    rwa [AddressSpace.pagesOf_nil, Finset.union_empty]
  | cons f fs ih =>
    rw [AddressSpace.pagesOf_cons, ← Finset.union_assoc] at hroom ⊢
    obtain ⟨s₁, hfirst, h₁⟩ := h.fault f
      ((PageTable.needs_mono Finset.subset_union_left).trans hroom)
    obtain ⟨s'', hrest, h''⟩ := ih h₁ hroom
    refine ⟨s'', ?_, h''⟩
    unfold Session.serviceAll at hrest ⊢
    rw [List.mapM_cons, Transition.run_bind, hfirst, andThen_done, Transition.run_bind, hrest]
    rfl

end Served

/-- Faults in a space, with as many frames free as the pages that they ask for need and the second-level
tables that are missing, are answered the same and come to the same in any order, but for the frames
that the pages and the tables lie in. -/
theorem faults_commute (hboot : s₀.Booted p) (hruns : Runs (fun s r => r.Permitted p s) s₀ trace s)
    (ho : s.object i = some (.space sp))
    (hroom : sp.table.needs s.kernel.ram (sp.pagesOf fs) ≤ p.freeFrames s.kernel.ram)
    (hperm : fs.Perm fs') :
    ∃ s₁ s₂, (serviceAll i fs).run s = .done (fs.map sp.verdict) s₁ ∧
      (serviceAll i fs').run s = .done (fs'.map sp.verdict) s₂ ∧
        s₁.object i = some (.space sp) ∧ s₂.object i = some (.space sp) ∧
          sp.Brings p s.kernel.ram (sp.pagesOf fs) s₁.kernel.ram ∧
            sp.table.LooksSame p s₁.kernel.ram s₂.kernel.ram := by
  have hstart := Served.refl (hruns.sound (fun _ _ hr => hr) hboot.sound) ho
  rw [← Finset.empty_union (sp.pagesOf fs)] at hroom
  obtain ⟨s₁, hrun₁, h₁⟩ := hstart.serviceAll hroom
  rw [AddressSpace.pagesOf_perm hperm] at hroom
  obtain ⟨s₂, hrun₂, h₂⟩ := hstart.serviceAll hroom
  rw [Finset.empty_union] at h₁ h₂
  rw [← AddressSpace.pagesOf_perm hperm] at h₂
  have hsame := h₁.brings.looksSame h₂.brings
  exact ⟨s₁, s₂, hrun₁, hrun₂, h₁.object_eq, h₂.object_eq, h₁.brings, hsame⟩

/-- The lowest page of the window of a stack. -/
def lowestStackPage : VirtualAddress := ⟨userStackTop - stackGrowthPages * pageSize, by decide⟩

/-- On five pages of RAM, three frames are left for the pages at both ends of the window of a stack and
for their second-level table. A store to the upper one that is not permitted comes between them. -/
theorem five_pages_commute : ∃ (s₀ s : Session) (sp : AddressSpace), s₀.Booted (pages 5) ∧
    Runs (fun s r => r.Permitted (pages 5) s) s₀ [(.newSpace, true)] s ∧
      s.object 0 = some (.space sp) ∧ (pages 5).freeFrames s.kernel.ram = 3 ∧
        ∃ s₁ s₂,
          (serviceAll 0 [⟨0, stackPage⟩, ⟨2, stackPage⟩, ⟨1, lowestStackPage⟩]).run s =
            .done [.ok (), .error .permissionViolation, .ok ()] s₁ ∧
          (serviceAll 0 [⟨1, lowestStackPage⟩, ⟨2, stackPage⟩, ⟨0, stackPage⟩]).run s =
            .done [.ok (), .error .permissionViolation, .ok ()] s₂ ∧
          s₁.object 0 = some (.space sp) ∧ s₂.object 0 = some (.space sp) ∧
            sp.Brings (pages 5) s.kernel.ram {stackPage, lowestStackPage} s₁.kernel.ram ∧
              sp.table.LooksSame (pages 5) s₁.kernel.ram s₂.kernel.ram := by
  obtain ⟨s₀, s, sp, hboot, -, hmade, hsound, -, halone, -, hvacant⟩ :=
    exists_alone (n := 5) (by decide) (by decide)
  have hruns : Runs (fun s r => r.Permitted (pages 5) s) s₀ [(.newSpace, true)] s :=
    .granted .start trivial hmade
  have hfree : (pages 5).freeFrames s.kernel.ram = 3 := by
    rw [halone.freeFrames_eq hsound, hvacant, TableMap.blocks_vacant]
    rfl
  have hupper := reaches_stackPage sp
  have hlower : sp.Reaches lowestStackPage := ⟨by decide, .inr (by decide)⟩
  have hpages : sp.pagesOf [⟨0, stackPage⟩, ⟨2, stackPage⟩, ⟨1, lowestStackPage⟩] =
      {stackPage, lowestStackPage} := by
    rw [AddressSpace.pagesOf_cons, AddressSpace.pagesOf_cons _ _ [_],
      AddressSpace.pagesOf_of_serves ⟨by decide, hupper⟩,
      AddressSpace.pagesOf_of_not_serves fun h => absurd h.1 (by decide),
      AddressSpace.pagesOf_of_serves ⟨by decide, hlower⟩]
    decide
  have hroom : sp.table.needs s.kernel.ram
      (sp.pagesOf [⟨0, stackPage⟩, ⟨2, stackPage⟩, ⟨1, lowestStackPage⟩]) ≤
        (pages 5).freeFrames s.kernel.ram := by
    rw [hfree, hpages]
    exact (PageTable.needs_le ..).trans (by decide)
  obtain ⟨s₁, s₂, hrun₁, hrun₂, ho₁, ho₂, hbrings, hsame⟩ := faults_commute hboot hruns
    halone.object_eq hroom (List.reverse_perm _).symm
  have hverdict : sp.verdict ⟨0, stackPage⟩ = .ok () ∧
      sp.verdict ⟨2, stackPage⟩ = .error .permissionViolation ∧
        sp.verdict ⟨1, lowestStackPage⟩ = .ok () := by
    simp [AddressSpace.verdict, hupper, hlower]
  obtain ⟨hfirst, hsecond, hthird⟩ := hverdict
  refine ⟨s₀, s, sp, hboot, hruns, halone.object_eq, hfree, s₁, s₂, ?_, ?_, ho₁, ho₂, ?_, hsame⟩
  · simpa only [List.map_cons, List.map_nil, hfirst, hsecond, hthird] using hrun₁
  · simpa only [List.reverse_cons, List.reverse_nil, List.nil_append, List.cons_append, List.map_cons,
      List.map_nil, hfirst, hsecond, hthird] using hrun₂
  · rwa [hpages] at hbrings

end Session

end SoftPaging
