import Mathlib
import SoftPaging.Proofs.Session.Locality
import SoftPaging.Proofs.Session.Spaces
import SoftPaging.Proofs.Session.Steady
import SoftPaging.Proofs.Tlb.Buffer

/-!
# The TLB and the current space

The entries of the TLB carry no tag for the space they belong to. They are right because of how the
machine is driven: a space is made current by invalidating the TLB, faults are serviced for the
current space only, and no other request touches its page table while it is current, but for the end
of a load, which invalidates the TLB again.

The invariant is that the TLB reflects the page table of the current space (`Coherent`). What carries
it is that a page that is resident keeps its entry: a fault fills positions that were empty, and
requests about other objects leave the table alone. So an entry in the TLB is never stale, whatever
the order in which all this happens (`drives_coherent`).
-/

namespace SoftPaging

open Outcome

/-- The request may be made while the TLB translates for the space at place `current`: faults are for
that space, and what else works on an object is for another one, unless it is the loader. The MMU is
not driven past its interrupt line. -/
def Request.Respects (current : Option Nat) : Request → Prop
  | fault i? _ _ => i? = none ∨ i? = current
  | addRegion _ _ _ _ | beginLoad _ | endLoad _ => True
  | drive f => ∀ mmu, (f mmu).tlb = mmu.tlb
  | r => ∀ i, current = some i → ¬ r.Alters i

namespace Session

/-- What a client may have done to a machine. The TLB translates for the space at place `current`, if
there is one. Each request was permitted and respected that space. -/
inductive Drives (p : FramePool) (s₀ : Session) : Option Nat → Session → Prop
  | start : Drives p s₀ none s₀
  | granted {current s r s'} (h : Drives p s₀ current s) (hr : r.Permitted p s)
      (hcurrent : r.Respects current) (hrun : (perform r).run s = .done () s') :
      Drives p s₀ current s'
  | refused {current s r cause s'} (h : Drives p s₀ current s) (hr : r.Permitted p s)
      (hcurrent : r.Respects current) (hrun : (perform r).run s = .refused cause s') :
      Drives p s₀ current s'
  | activate {current s i sp} (h : Drives p s₀ current s) (ho : s.object i = some (.space sp)) :
      Drives p s₀ (some i) { s with mmu := AddressSpace.activate? (some sp) s.mmu }
  /-- A thread of the kernel leaves the current space as it is. -/
  | activateNone {current s} (h : Drives p s₀ current s) :
      Drives p s₀ current { s with mmu := AddressSpace.activate? none s.mmu }
  | deactivate {current s i sp} (h : Drives p s₀ current s) (ho : s.object i = some (.space sp)) :
      Drives p s₀ none { s with mmu := sp.deactivate s.mmu }

variable {p : FramePool} {s s' s₀ : Session} {current : Option Nat} {i : Nat} {sp : AddressSpace}

theorem Drives.sound (h : Drives p s₀ current s) (hs₀ : s₀.Sound p) : s.Sound p := by
  induction h with
  | start => exact hs₀
  | granted _ hr _ hrun ih => exact ((ih.perform_meets hr).of_done hrun).sound
  | refused _ hr _ hrun ih => exact ((ih.perform_meets hr).of_refused hrun).sound
  | activate _ _ ih => exact ih.withMmu _
  | activateNone _ ih => exact ih.withMmu _
  | deactivate _ _ ih => exact ih.withMmu _

/-! ## The invariant -/

/-- The entries of the page table of the current space. Without a current space nothing is mapped. -/
def currentEntries (s : Session) (current : Option Nat) : VirtualAddress → PageEntry :=
  match current.bind s.object with
  | some (.space sp) => sp.table.entryIn s.kernel.ram
  | _ => fun _ => .empty

theorem currentEntries_none (s : Session) : s.currentEntries none = fun _ => .empty := rfl

theorem currentEntries_some (ho : s.object i = some (.space sp)) :
    s.currentEntries (some i) = sp.table.entryIn s.kernel.ram := by
  unfold currentEntries
  rw [Option.bind_some, ho]

/-- The current space is there, and the TLB reflects its page table. -/
structure Coherent (current : Option Nat) (s : Session) : Prop where
  live : ∀ i, current = some i → ∃ sp, s.object i = some (.space sp)
  reflects : s.mmu.tlb.Reflects (s.currentEntries current)

/-- After the TLB was invalidated it reflects whatever space is current. -/
theorem coherent_of_flush {m : Mmu TlbBuffer} (hmmu : s.mmu = m.flush)
    (hlive : ∀ i, current = some i → ∃ sp, s.object i = some (.space sp)) : s.Coherent current := by
  refine ⟨hlive, ?_⟩
  rw [hmmu]
  exact m.reflects_flush _

theorem coherent_activate (ho : s.object i = some (.space sp)) :
    Coherent (some i) { s with mmu := AddressSpace.activate? (some sp) s.mmu } := by
  refine coherent_of_flush (m := s.mmu) rfl fun j hj => ⟨sp, ?_⟩
  rw [object_mmu, ← Option.some.inj hj, ho]

theorem coherent_deactivate (s : Session) (sp : AddressSpace) :
    Coherent none { s with mmu := sp.deactivate s.mmu } :=
  coherent_of_flush (m := s.mmu) rfl fun _ hi => by cases hi

/-- The space at place `i` is still there, and the pages that were resident have their entries. -/
def Carries (s : Session) (i : Nat) (s' : Session) : Prop :=
  ∀ sp, s.object i = some (.space sp) → ∃ sp', s'.object i = some (.space sp') ∧
    ∀ a, (sp.table.entryIn s.kernel.ram a).isValid = true →
      sp'.table.entryIn s'.kernel.ram a = sp.table.entryIn s.kernel.ram a

theorem Leaves.carries (hsound : s.Sound p) (ho : s.object i = some (.space sp))
    (h : s.Leaves i (.space sp) s') : s.Carries i s' := by
  intro sp' ho'
  obtain rfl := space_unique ho ho'
  have hgood := (hsound.take ho).2
  refine ⟨sp, h.object_eq, fun a _ => ?_⟩
  rw [(h.shows hgood rfl).entryIn_eq, (hgood.shows rfl).entryIn_eq]

theorem Unchanged.carries (h : s.Unchanged p s') : s.Carries i s' := by
  intro sp ho
  refine ⟨sp, ?_, fun a _ => ?_⟩
  · unfold object
    rw [h.objects_eq]
    exact ho
  · exact h.entryIn_eq (o := .space sp) (List.mem_of_getElem? (object_eq_some.1 ho)) rfl a

namespace Coherent

variable (h : s.Coherent current)
include h

theorem live_of_carries (hcarries : ∀ i, current = some i → s.Carries i s') :
    ∀ i, current = some i → ∃ sp, s'.object i = some (.space sp) := by
  intro i hi
  obtain ⟨sp, ho⟩ := h.live i hi
  obtain ⟨sp', ho', -⟩ := hcarries i hi sp ho
  exact ⟨sp', ho'⟩

/-- What is resident in the current space keeps its place in the TLB. -/
theorem reflects_of_carries (hcarries : ∀ i, current = some i → s.Carries i s') :
    s.mmu.tlb.Reflects (s'.currentEntries current) := by
  refine h.reflects.mono fun a hvalid => ?_
  cases current with
  | none => rfl
  | some i =>
    obtain ⟨sp, ho⟩ := h.live i rfl
    obtain ⟨sp', ho', hentries⟩ := hcarries i rfl sp ho
    rw [currentEntries_some ho] at hvalid ⊢
    rw [currentEntries_some ho']
    exact hentries a hvalid

/-- Nothing happens to the TLB. -/
theorem of_mmu_eq (hcarries : ∀ i, current = some i → s.Carries i s') (hmmu : s'.mmu = s.mmu) :
    s'.Coherent current := by
  refine ⟨h.live_of_carries hcarries, ?_⟩
  rw [hmmu]
  exact h.reflects_of_carries hcarries

/-! ## One request -/

/-- A request that neither reaches the MMU nor works on the current space. -/
theorem perform_of_steady (hsound : s.Sound p) {r : Request} (hr : r.Permitted p s)
    (hsteady : r.Steady) (halters : ∀ i, current = some i → ¬ r.Alters i) :
    ((perform r).run s).Meets (fun _ s' => s'.Coherent current) (fun _ s' => s'.Coherent current)
      fun _ => True := by
  have hmmu := perform_steady hsteady s
  cases current with
  | none =>
    exact hmmu.mono (fun _ _ => h.of_mmu_eq fun i hi => by cases hi)
      (fun _ _ => h.of_mmu_eq fun i hi => by cases hi) fun _ hH => hH
  | some i =>
    obtain ⟨sp, ho⟩ := h.live i rfl
    have hnext (s' : Session) (hleaves : s.Leaves i (.space sp) s') (hmmu : s'.mmu = s.mmu) :
        s'.Coherent (some i) := by
      refine h.of_mmu_eq (fun j hj => ?_) hmmu
      obtain rfl := Option.some.inj hj
      exact hleaves.carries hsound ho
    exact ((hsound.perform_leaves ho hr (halters i rfl)).and hmmu).mono
      (fun _ s' hs' => hnext s' hs'.1 hs'.2) (fun _ s' hs' => hnext s' hs'.1 hs'.2) fun _ _ => trivial

/-- The current space gets other regions, and nothing else happens. -/
theorem put_space (hcurrent : current = some i) (ho : s.object i = some (.space sp))
    {sp' : AddressSpace} (htable : sp'.table = sp.table) :
    (s.put i (some (.space sp'))).Coherent current := by
  refine h.of_mmu_eq (fun j hj => ?_) rfl
  rw [hcurrent] at hj
  obtain rfl := Option.some.inj hj
  intro sp₁ ho₁
  obtain rfl := space_unique ho ho₁
  refine ⟨sp', object_put_self ho _, fun a _ => ?_⟩
  rw [htable]
  rfl

theorem perform_addRegion (hsound : s.Sound p) (i : Nat) (start : VirtualAddress) (size : Nat)
    (permissions : Permissions) :
    ((perform (.addRegion i start size permissions)).run s).Meets
      (fun _ s' => s'.Coherent current) (fun _ s' => s'.Coherent current) fun _ => True := by
  by_cases hcurrent : current = some i
  · obtain ⟨sp, ho⟩ := h.live i hcurrent
    refine (hsound.addRegion_meets ho start size permissions).mono ?_ ?_ fun _ _ => trivial
    · rintro _ _ ⟨sp', past, e, rfl, -, htable, -⟩
      have hput := h.put_space hcurrent ho htable
      exact ⟨hput.live, hput.reflects⟩
    · rintro _ _ ⟨⟨e, rfl⟩, -⟩
      exact ⟨h.live, h.reflects⟩
  · refine h.perform_of_steady hsound trivial trivial fun j hj halters => hcurrent ?_
    rw [hj, show i = j from halters]

theorem perform_beginLoad (hsound : s.Sound p) (i : Nat) :
    ((perform (.beginLoad i)).run s).Meets
      (fun _ s' => s'.Coherent current) (fun _ s' => s'.Coherent current) fun _ => True := by
  by_cases hcurrent : current = some i
  · obtain ⟨sp, ho⟩ := h.live i hcurrent
    rw [run_beginLoad ho]
    exact .done (h.put_space hcurrent ho rfl)
  · refine h.perform_of_steady hsound trivial trivial fun j hj halters => hcurrent ?_
    rw [hj, show i = j from halters]

/-- The end of a load changes entries that the TLB may hold, and invalidates it. -/
theorem perform_endLoad (hsound : s.Sound p) (i : Nat) :
    ((perform (.endLoad i)).run s).Meets
      (fun _ s' => s'.Coherent current) (fun _ s' => s'.Coherent current) fun _ => True := by
  rcases s.space_cases i with ⟨sp, ho⟩ | hspace
  · obtain ⟨s', hrun, hsealed⟩ := hsound.endLoad_done ho
    rw [hrun]
    refine .done (coherent_of_flush hsealed.mmu_eq fun j hj => ?_)
    by_cases hj' : j = i
    · subst hj'
      exact ⟨sp.restored, hsealed.object_eq⟩
    · obtain ⟨sp', ho'⟩ := h.live j hj
      exact ⟨sp', (hsealed.others_eq j hj').trans ho'⟩
  · have hrun : (perform (.endLoad i)).run s = .done () s :=
      run_onSpace_of_no_space hspace _
    rw [hrun]
    exact .done h

/-- A fault of the current space that is done: the TLB holds one entry more, which is that of the
page. -/
theorem of_fault (hsound : s.Sound p) (hcurrent : current = some i)
    (ho : s.object i = some (.space sp)) {k' : Kernel} {a : VirtualAddress} {writable : Bool}
    {e : PageEntry} (hmaps : sp.table.MapsPage p (s.put i none).owned s.kernel
      (sp.table.mapIn s.kernel.ram) a.directoryIndex a.tableIndex writable e k') :
    Coherent current { s.withKernel k' with mmu := s.mmu.install (.forPage a e) } := by
  have hcarries (j : Nat) (hj : current = some j) :
      s.Carries j { s.withKernel k' with mmu := s.mmu.install (.forPage a e) } := by
    rw [hcurrent] at hj
    obtain rfl := Option.some.inj hj
    intro sp' ho'
    obtain rfl := space_unique ho ho'
    exact ⟨_, ho, fun b => hmaps.entryIn_of_valid (hsound.held ho (t := sp.table) rfl).shows⟩
  have hreflects := h.reflects_of_carries hcarries
  subst hcurrent
  refine ⟨h.live_of_carries hcarries, Mmu.reflects_install hreflects ?_⟩
  have hentries := currentEntries_some (s := { s.withKernel k' with
    mmu := s.mmu.install (.forPage a e) }) ho
  rw [hentries, PageTable.entryIn_pageBase]
  exact hmaps.entryIn_eq.symm

theorem perform_fault (hsound : s.Sound p) {i? : Option Nat} (hi : i? = none ∨ i? = current)
    (code : Nat) (a : VirtualAddress) :
    ((perform (.fault i? code a)).run s).Meets
      (fun _ s' => s'.Coherent current) (fun _ s' => s'.Coherent current) fun _ => True := by
  have hrefused (s' : Session) (hs' : s.Unchanged p s') : s'.Coherent current :=
    h.of_mmu_eq (fun _ _ => hs'.carries) hs'.mmu_eq
  cases i? with
  | none =>
    exact (hsound.faultNowhere_meets code a).mono (fun _ _ hfalse => hfalse.elim)
      (fun _ s' => hrefused s') fun _ _ => trivial
  | some i =>
    have hcurrent : current = some i := (hi.resolve_left (Option.some_ne_none i)).symm
    obtain ⟨sp, ho⟩ := h.live i hcurrent
    refine (hsound.faultAt_meets ho code a).mono ?_ (fun _ s' hs' => hrefused s' hs')
      fun _ _ => trivial
    rintro _ _ ⟨k', writable, e, rfl, -, hmaps⟩
    exact h.of_fault hsound hcurrent ho hmaps

/-- A request that respects the current space keeps the TLB coherent, granted or refused. -/
theorem perform_meets (hsound : s.Sound p) {r : Request} (hr : r.Permitted p s)
    (hcurrent : r.Respects current) :
    ((perform r).run s).Meets (fun _ s' => s'.Coherent current) (fun _ s' => s'.Coherent current)
      fun _ => True := by
  cases r with
  | addRegion i start size permissions => exact h.perform_addRegion hsound i start size permissions
  | beginLoad i => exact h.perform_beginLoad hsound i
  | endLoad i => exact h.perform_endLoad hsound i
  | fault i? code a => exact h.perform_fault hsound hcurrent code a
  | drive f =>
    refine .done ⟨h.live, ?_⟩
    show (f s.mmu).tlb.Reflects (s.currentEntries current)
    rw [hcurrent s.mmu]
    exact h.reflects
  | _ => exact h.perform_of_steady hsound hr trivial hcurrent

end Coherent

/-- The TLB is coherent after any run. -/
theorem Drives.coherent (h : Drives p s₀ current s) (hs₀ : s₀.Sound p)
    (hempty : s₀.mmu.tlb = .empty) : s.Coherent current := by
  induction h with
  | start =>
    refine ⟨fun i hi => (by cases hi), ?_⟩
    rw [hempty]
    exact TlbBuffer.reflects_empty _
  | granted h hr hcurrent hrun ih =>
    exact (ih.perform_meets (h.sound hs₀) hr hcurrent).of_done hrun
  | refused h hr hcurrent hrun ih =>
    exact (ih.perform_meets (h.sound hs₀) hr hcurrent).of_refused hrun
  | activate h ho ih => exact coherent_activate ho
  | activateNone h ih => exact ih
  | deactivate h ho ih => exact coherent_deactivate _ _

/-! ## What the TLB answers -/

/-- The TLB says of an address what the page table of the current space says, or nothing. -/
structure Agrees (current : Option Nat) (s : Session) : Prop where
  live : ∀ i, current = some i → ∃ sp, s.object i = some (.space sp)
  /-- No slot is valid without a current space. -/
  slot : ∀ slot : Fin tlbSlots, (s.mmu.tlb.slots.get slot).lo.isValid = true →
    ∃ i sp, current = some i ∧ s.object i = some (.space sp) ∧
      (s.mmu.tlb.slots.get slot).lo =
        sp.table.entryIn s.kernel.ram (s.mmu.tlb.slots.get slot).hi.page
  translate : ∀ a, s.mmu.tlb.translate a = none ∨
    ∃ i sp, current = some i ∧ s.object i = some (.space sp) ∧
      (sp.table.translate a).run s.kernel = .done (s.mmu.tlb.translate a) s.kernel
  /-- A store that the TLB permits is permitted by the page table. -/
  store : ∀ a, ∀ slot : Fin tlbSlots, (s.mmu.tlb.slots.get slot).isMatch a = true →
    (s.mmu.tlb.slots.get slot).lo.isDirty = true →
      ∃ i sp, current = some i ∧ s.object i = some (.space sp) ∧
        (sp.table.entryIn s.kernel.ram a).isDirty = true
  /-- The TLB does not miss where a fault was just serviced. -/
  fault : ∀ i code a s', current = some i →
    (perform (.fault (some i) code a)).run s = .done () s' →
      ∃ sp pa, s'.object i = some (.space sp) ∧ s'.mmu.tlb.translate a = some pa ∧
        (sp.table.translate a).run s'.kernel = .done (some pa) s'.kernel

namespace Coherent

variable (h : s.Coherent current)
include h

/-- A valid slot has a space to translate for. -/
theorem space_of_valid {slot : Fin tlbSlots} (hvalid : (s.mmu.tlb.slots.get slot).lo.isValid = true) :
    ∃ i sp, current = some i ∧ s.object i = some (.space sp) ∧
      s.currentEntries current = sp.table.entryIn s.kernel.ram := by
  cases current with
  | none =>
    rw [h.reflects slot hvalid, currentEntries_none, PageEntry.isValid_empty] at hvalid
    cases hvalid
  | some i =>
    obtain ⟨sp, ho⟩ := h.live i rfl
    exact ⟨i, sp, rfl, ho, currentEntries_some ho⟩

theorem slot_eq {slot : Fin tlbSlots} (hvalid : (s.mmu.tlb.slots.get slot).lo.isValid = true) :
    ∃ i sp, current = some i ∧ s.object i = some (.space sp) ∧
      (s.mmu.tlb.slots.get slot).lo =
        sp.table.entryIn s.kernel.ram (s.mmu.tlb.slots.get slot).hi.page := by
  obtain ⟨i, sp, hcurrent, ho, hentries⟩ := h.space_of_valid hvalid
  refine ⟨i, sp, hcurrent, ho, ?_⟩
  rw [← hentries]
  exact h.reflects slot hvalid

theorem translate_eq (hsound : s.Sound p) (a : VirtualAddress) : s.mmu.tlb.translate a = none ∨
    ∃ i sp, current = some i ∧ s.object i = some (.space sp) ∧
      (sp.table.translate a).run s.kernel = .done (s.mmu.tlb.translate a) s.kernel := by
  have hreflects := h.reflects
  cases current with
  | none =>
    rw [currentEntries_none] at hreflects
    exact .inl ((hreflects.translate_eq (a := a) rfl).elim id id)
  | some i =>
    obtain ⟨sp, ho⟩ := h.live i rfl
    rw [currentEntries_some ho] at hreflects
    refine (hreflects.translate_eq (sp.table.entryIn_pageBase _ a)).imp_right fun hhit => ?_
    refine ⟨i, sp, rfl, ho, ?_⟩
    rw [hhit]
    exact (hsound.held ho (t := sp.table) rfl).run_translate_entryIn a

theorem isDirty_of_match {a : VirtualAddress} {slot : Fin tlbSlots}
    (hmatch : (s.mmu.tlb.slots.get slot).isMatch a = true)
    (hdirty : (s.mmu.tlb.slots.get slot).lo.isDirty = true) :
    ∃ i sp, current = some i ∧ s.object i = some (.space sp) ∧
      (sp.table.entryIn s.kernel.ram a).isDirty = true := by
  obtain ⟨i, sp, hcurrent, ho, hentries⟩ := h.space_of_valid (TlbEntry.isMatch_iff.1 hmatch).1
  have hreflects := h.reflects
  rw [hentries] at hreflects
  refine ⟨i, sp, hcurrent, ho, ?_⟩
  rw [← hreflects.lo_eq (sp.table.entryIn_pageBase _ a) hmatch]
  exact hdirty

/-- The entry of a fault that was serviced is in the TLB, and nothing in the TLB says otherwise. -/
theorem translate_of_fault (hsound : s.Sound p) (hcurrent : current = some i) {code : Nat}
    {a : VirtualAddress} (hrun : (perform (.fault (some i) code a)).run s = .done () s') :
    ∃ sp pa, s'.object i = some (.space sp) ∧ s'.mmu.tlb.translate a = some pa ∧
      (sp.table.translate a).run s'.kernel = .done (some pa) s'.kernel := by
  obtain ⟨sp, ho⟩ := h.live i hcurrent
  have hsound' := ((hsound.perform_meets (r := .fault (some i) code a) trivial).of_done hrun).sound
  obtain ⟨k', writable, e, rfl, -, hmaps⟩ := (hsound.faultAt_meets ho code a).of_done hrun
  have hreflects := (h.of_fault hsound hcurrent ho hmaps).reflects
  have ho' : ({ s.withKernel k' with mmu := s.mmu.install (.forPage a e) } : Session).object i =
      some (.space sp) := ho
  rw [hcurrent, currentEntries_some ho'] at hreflects
  obtain ⟨slot, hmatch⟩ := s.mmu.exists_match_install a hmaps.isValid
  obtain ⟨pa, hhit, hpa⟩ := hreflects.translate_of_match (sp.table.entryIn_pageBase _ a) hmatch
  refine ⟨sp, pa, ho', hhit, ?_⟩
  rw [← hpa]
  exact (hsound'.held ho' (t := sp.table) rfl).run_translate_entryIn a

theorem agrees (hsound : s.Sound p) : s.Agrees current where
  live := h.live
  slot _ := h.slot_eq
  translate := h.translate_eq hsound
  store _ _ := h.isDirty_of_match
  fault _ _ _ _ hcurrent := h.translate_of_fault hsound hcurrent

end Coherent

/-- However the machine was driven, the TLB agrees with the page table of the current space, and is
invalid without one. -/
theorem drives_coherent (hboot : s₀.Booted p) (hempty : s₀.mmu.tlb = .empty)
    (hdrives : Drives p s₀ current s) : s.Agrees current :=
  (hdrives.coherent hboot.sound hempty).agrees (hdrives.sound hboot.sound)

/-- On eight pages of RAM, a space is made and activated, and a fault in its stack is serviced. The
TLB translates the address then. -/
theorem eight_pages_coherent : ∃ (s₀ s s' : Session) (pa : PhysicalAddress),
    s₀.Booted (pages 8) ∧ s₀.mmu.tlb = .empty ∧ Drives (pages 8) s₀ (some 0) s ∧
      (perform (.fault (some 0) 0 stackPage)).run s = .done () s' ∧
        Drives (pages 8) s₀ (some 0) s' ∧ s'.Agrees (some 0) ∧
          s'.mmu.tlb.translate stackPage = some pa := by
  obtain ⟨s₀, s₁, sp, hboot, hempty, hmade, hsound, -, halone, -, hvacant⟩ :=
    exists_alone (n := 8) (by decide) (by decide)
  have hnew : Drives (pages 8) s₀ none s₁ :=
    .granted (r := .newSpace) .start trivial (fun i hi => by cases hi) hmade
  have hactive := hnew.activate halone.object_eq
  obtain ⟨s', hfault, -⟩ := (halone.withMmu (AddressSpace.activate? (some sp) s₁.mmu)).fault_done
    (hsound.withMmu _) (by decide) hvacant (reaches_stackPage sp)
  have hdrives : Drives (pages 8) s₀ (some 0) s' :=
    hactive.granted (r := .fault (some 0) 0 stackPage) trivial (Or.inr rfl) hfault
  obtain ⟨-, pa, -, htranslate, -⟩ :=
    (drives_coherent hboot hempty hactive).fault 0 0 stackPage s' rfl hfault
  exact ⟨s₀, _, s', pa, hboot, hempty, hactive, hfault, hdrives,
    drives_coherent hboot hempty hdrives, htranslate⟩

end Session

end SoftPaging
