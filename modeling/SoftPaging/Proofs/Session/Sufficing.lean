import Mathlib
import SoftPaging.Proofs.Pool.Count
import SoftPaging.Proofs.Session.Step
import SoftPaging.Proofs.Space.Deciding

/-!
# When memory suffices

A request that takes frames is granted when enough of them are free, and takes no more. A block takes
the frames that were asked for, which have to be next to each other; an object takes those that it
owns, and a fault as many as the page of its address needs, without which it is refused.
-/

namespace SoftPaging

open Outcome

namespace Session

variable {p : FramePool} {s : Session} {i : Nat} {sp : AddressSpace} {k' : Kernel}

/-- What was handed out besides all that is owned, the pool has less. -/
theorem Sound.freeFrames_beside (h : s.Sound p) {own : List Block}
    (hk : k'.Holds p (own ++ s.owned)) :
    p.freeFrames s.kernel.ram = p.freeFrames k'.ram + frameCount own := by
  have hadd := h.holds_owned.represents.freeFrames_add hk.represents h.holds.sound.reserved_lt.le
  rw [frameCount_append] at hadd
  omega

/-! ## Blocks -/

/-- A block is handed out when there is room for it somewhere. -/
theorem Sound.allocate_done (h : s.Sound p) {start count : Nat}
    (hroom : p.HasRoom s.kernel.ram ⟨start, count⟩) :
    ∃ s' first, (perform (.allocate count)).run s = .done () s' ∧
      s'.blocks = ⟨first, count⟩ :: s.blocks ∧ s'.objects = s.objects ∧
        p.freeFrames s.kernel.ram = p.freeFrames s'.kernel.ram + count := by
  obtain ⟨hlow, hcount, hpast⟩ : p.reserved ≤ start ∧ 0 < count ∧ start + count ≤ p.total := hroom.1
  have hanswers := h.holds_owned.toLends.allocate hcount
  have hrun : (perform (.allocate count)).run s =
      ((op (Op.allocate count)).run s).andThen fun a => (lend count a).run := rfl
  cases hallocate : (Op.allocate count).run s.kernel with
  | done a k' =>
    have hout := (h.holds_owned.allocate_meets count).of_done hallocate
    have hholds : k'.Holds p ([⟨a.number.val, count⟩] ++ s.owned) := hout.holds
    rw [run_op_of_done hallocate] at hrun
    exact ⟨_, _, hrun, rfl, rfl, h.freeFrames_beside hholds⟩
  | refused cause k' => exact absurd hroom ((hanswers.of_refused hallocate).2.1 start)
  | halted cause =>
    have hover := (hanswers.of_halted hallocate).2
    have htotal := h.holds.sound.twice_total_lt
    omega

/-! ## Objects -/

/-- A cell of a number or of an array is made when a frame is free. -/
theorem Sound.newCell_done (h : s.Sound p) {kind : CellKind} {d : Datum} {v : kind.Value}
    (hv : d.value? kind = some v) (hfree : p.freeFrames s.kernel.ram ≠ 0) :
    ∃ s' c, (perform (.newCell kind d)).run s = .done () s' ∧ s'.blocks = s.blocks ∧
      s'.objects = s.objects ++ [some (.cell kind c)] ∧ p.freeFrames s.kernel.ram =
        p.freeFrames s'.kernel.ram + frameCount (c.blocksIn s'.kernel.ram) := by
  obtain ⟨c, k', hnew, howned⟩ := ((h.new_beside hv).mono (fun _ _ hQ => hQ)
    (fun _ _ hR => hfree (h.holds_owned.represents.freeFrames_of_full hR.2)) fun _ hH => hH).exists_done
  have hrun : (perform (.newCell kind d)).run s = ((op (FrameCell.new v)).run s).andThen fun c s' =>
      .done () (s'.keep (.cell kind c)) := by
    rw [run_newCell, hv]
    rfl
  rw [run_op_of_done hnew] at hrun
  exact ⟨_, c, hrun, rfl, rfl, h.freeFrames_beside howned.holds⟩

/-- A new space has no regions, nothing is resident in it, and it takes one frame. -/
theorem Sound.newSpace_meets (h : s.Sound p) :
    ((perform .newSpace).run s).Meets
      (fun _ s' => ∃ sp k', s' = (s.withKernel k').keep (.space sp) ∧ sp.regions = [] ∧
        sp.table.mapIn k'.ram = .vacant ∧
          p.freeFrames s.kernel.ram = p.freeFrames k'.ram + 1)
      (fun _ s' => (∃ e, s' = s.withKernel (s.kernel.push e)) ∧ p.freeFrames s.kernel.ram = 0)
      never := by
  have hrun : (perform .newSpace).run s = ((op AddressSpace.create).run s).andThen fun sp s' =>
      .done () (s'.keep (.space sp)) := rfl
  rw [hrun]
  refine Outcome.Meets.andThen (op_meets
    ((AddressSpace.create_meets h.holds_owned).mono ?_ ?_ fun _ hH => hH))
  · rintro sp k ⟨hregions, -, hheld, -⟩
    have hone : frameCount (sp.table.blocks .vacant) = 1 := by simp [PageTable.blocks]
    exact .done ⟨sp, k, rfl, hregions, hheld.shows.mapIn_eq,
      hone ▸ h.freeFrames_beside hheld.holds⟩
  · rintro cause k ⟨-, rfl, hnone⟩
    exact ⟨⟨_, rfl⟩, h.holds_owned.represents.freeFrames_of_full hnone⟩

theorem Sound.newSpace_done (h : s.Sound p) (hfree : p.freeFrames s.kernel.ram ≠ 0) :
    ∃ s' sp, (perform .newSpace).run s = .done () s' ∧ s'.blocks = s.blocks ∧
      s'.objects = s.objects ++ [some (.space sp)] ∧ sp.table.mapIn s'.kernel.ram = .vacant ∧
        p.freeFrames s.kernel.ram = p.freeFrames s'.kernel.ram + 1 := by
  obtain ⟨⟨⟩, _, hrun, sp, k', rfl, -, hvacant, hone⟩ := (h.newSpace_meets.mono (fun _ _ hQ => hQ)
    (fun _ _ hR => hfree hR.2) fun _ hH => hH).exists_done
  exact ⟨_, sp, hrun, rfl, rfl, hvacant, hone⟩

/-! ## Faults -/

theorem Sound.need_of_vacant (h : s.Sound p) (ho : s.object i = some (.space sp))
    (hvacant : sp.table.mapIn s.kernel.ram = .vacant) (a : VirtualAddress) :
    sp.table.need s.kernel.ram a = 2 := by
  rw [(h.held ho (t := sp.table) rfl).shows.need_eq, hvacant, TableMap.need_of_closed rfl]

/-- A fault that is serviced maps the page of its address on demand and installs its entry. -/
theorem Sound.faultAt_supplies (h : s.Sound p) (ho : s.object i = some (.space sp)) (code : Nat)
    (a : VirtualAddress) :
    ((perform (.fault (some i) code a)).run s).Meets
      (fun _ s' => ∃ k' writable e,
        s' = { s.withKernel k' with mmu := s.mmu.install (.forPage a e) } ∧
          sp.grants a = some writable ∧
            sp.table.Supplied p (s.put i none).owned s.kernel (sp.table.mapIn s.kernel.ram) a
              writable e k')
      (fun cause _ => faultRefusal? p s.kernel.ram (some sp) code a = some cause) never := by
  have hheld := h.held ho (t := sp.table) rfl
  have hrun : (perform (.fault (some i) code a)).run s = _ := run_onSpace ho _
  rw [hrun]
  refine Outcome.Meets.andThen (op_meets (Transition.Meets.bind
    (serviceFault_supplies (h.take ho).2.1 hheld code a s.mmu) ?_))
  rintro _ k ⟨-, writable, e, hgrants, hsupplied, rfl⟩
  have hput : (s.withKernel k).put i (some (.space sp)) = s.withKernel k := put_object ho
  refine .done (.done ⟨k, writable, e, ?_, hgrants, hsupplied⟩)
  rw [hput]

/-- A fault where there may be a page is serviced when the frames that the page needs are free. -/
theorem Sound.fault_done (h : s.Sound p) (ho : s.object i = some (.space sp)) {code : Nat}
    (hcode : code < 2) {a : VirtualAddress} (hreach : sp.Reaches a)
    (hfree : sp.table.need s.kernel.ram a ≤ p.freeFrames s.kernel.ram) :
    ∃ s', (perform (.fault (some i) code a)).run s = .done () s' ∧ s'.blocks = s.blocks ∧
      s'.objects = s.objects ∧ (sp.table.entryIn s'.kernel.ram a).isValid = true ∧
        p.freeFrames s.kernel.ram =
          p.freeFrames s'.kernel.ram + sp.table.need s.kernel.ram a := by
  have hserves : faultRefusal? p s.kernel.ram (some sp) code a = none := by
    rw [faultRefusal?_some hcode, if_neg (not_not.2 hreach), if_neg (Nat.not_lt.2 hfree)]
  have hheld := h.held ho (t := sp.table) rfl
  obtain ⟨⟨⟩, _, hrun, k', writable, e, rfl, -, hsupplied⟩ := ((h.faultAt_supplies ho code a).mono
    (fun _ _ hQ => hQ) (fun _ _ hR => by cases hserves.symm.trans hR) fun _ hH => hH).exists_done
  refine ⟨_, hrun, rfl, rfl, ?_, ?_⟩
  · show (sp.table.entryIn k'.ram a).isValid = true
    rw [hsupplied.entryIn_eq hheld]
    exact hsupplied.isValid
  · rw [hheld.shows.need_eq]
    exact hsupplied.freeFrames_eq hheld

/-- It is refused when they are not. -/
theorem Sound.fault_short (h : s.Sound p) (ho : s.object i = some (.space sp)) {code : Nat}
    (hcode : code < 2) {a : VirtualAddress} (hreach : sp.Reaches a)
    (hshort : p.freeFrames s.kernel.ram < sp.table.need s.kernel.ram a) :
    ∃ s', (perform (.fault (some i) code a)).run s = .refused .outOfMemory s' := by
  have hmeets := h.faultAt_supplies ho code a
  have hheld := h.held ho (t := sp.table) rfl
  cases hrun : (perform (.fault (some i) code a)).run s with
  | done answer s' =>
    obtain ⟨k', writable, e, rfl, -, hsupplied⟩ := hmeets.of_done hrun
    have hfree := hsupplied.freeFrames_eq hheld
    rw [hheld.shows.need_eq] at hshort
    omega
  | refused cause s' =>
    have hcause := hmeets.of_refused hrun
    rw [faultRefusal?_some hcode, if_neg (not_not.2 hreach), if_pos hshort] at hcause
    obtain rfl := Option.some.inj hcause
    exact ⟨s', rfl⟩
  | halted cause => exact (hmeets.of_halted hrun).elim

end Session

end SoftPaging
