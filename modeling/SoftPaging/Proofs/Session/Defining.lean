import Mathlib
import SoftPaging.Proofs.Session.Fitness
import SoftPaging.Proofs.Session.Permissions
import SoftPaging.Proofs.Space.Defining

/-!
# Defining a region, exactly

A region is defined just when its end, computed without any bound and rounded up to whole pages, lies
below the user stack. It then comes behind the regions there are, with the heap right behind it, and
answers for its addresses; no other object, no page table, no frame record and no other byte of memory
is touched. A region that is refused leaves a line in the log and nothing else. This holds for each
space that a client has come to, in whatever way (`addRegion_defines`).
-/

namespace SoftPaging

open Outcome

namespace Session

variable {P : Session → Request → Prop} {s s₀ : Session} {trace : List (Request × Bool)} {i : Nat}
  {sp : AddressSpace}

theorem run_addRegion_of_fits (ho : s.object i = some (.space sp)) (h : sp.Sound)
    {start : VirtualAddress} {size : Nat} (hend : roundUp (start.val + size) < userStackTop)
    (permissions : Permissions) : ∃ sp' r, sp.Defines start size permissions r sp' ∧
      (perform (.addRegion i start size permissions)).run s = .done ()
        ((s.withKernel (s.kernel.push (.regionDefined r))).put i (some (.space sp'))) := by
  have hend := AddressSpace.regionEnd?_eq_some_iff.2 ⟨rfl, hend⟩
  obtain ⟨heap, hheap, hadd⟩ := h.run_addRegion_of_some hend permissions s.kernel
  rw [← hheap] at hend hadd
  have hrun : (perform (.addRegion i start size permissions)).run s = _ := run_onSpace ho _
  rw [run_op, Transition.run_bind, hadd, andThen_done] at hrun
  exact ⟨_, _, h.defines hend permissions, hrun⟩

theorem run_addRegion_of_not_fits (ho : s.object i = some (.space sp)) (h : sp.Sound)
    {start : VirtualAddress} {size : Nat} (hend : ¬ roundUp (start.val + size) < userStackTop)
    (permissions : Permissions) : (perform (.addRegion i start size permissions)).run s =
      .refused .invalidRegion
        (s.withKernel (s.kernel.push (.regionRejected start size sp.stackTop))) := by
  have hrun : (perform (.addRegion i start size permissions)).run s = _ := run_onSpace ho _
  rw [run_op, Transition.run_bind,
    h.run_addRegion_of_none (AddressSpace.regionEnd?_eq_none_iff.2 hend)] at hrun
  exact hrun

/-- However a space was come to, a region of any size at any address is defined there when it ends
below the user stack, and refused when it does not. -/
theorem addRegion_defines (hempty : s₀.objects = []) (hruns : Runs P s₀ trace s)
    (ho : s.object i = some (.space sp)) (start : VirtualAddress) (size : Nat)
    (permissions : Permissions) :
    (roundUp (start.val + size) < userStackTop → ∃ sp' r, sp.Defines start size permissions r sp' ∧
      (perform (.addRegion i start size permissions)).run s = .done ()
        ((s.withKernel (s.kernel.push (.regionDefined r))).put i (some (.space sp')))) ∧
    (¬ roundUp (start.val + size) < userStackTop →
      (perform (.addRegion i start size permissions)).run s = .refused .invalidRegion
        (s.withKernel (s.kernel.push (.regionRejected start size sp.stackTop)))) :=
  have hsound := hruns.space_sound hempty ho
  ⟨fun hend => run_addRegion_of_fits ho hsound hend permissions,
    fun hend => run_addRegion_of_not_fits ho hsound hend permissions⟩

/-- In a new space on eight pages of RAM, one byte of text takes a page, and a region of almost as many
bytes as a word can count is refused. -/
theorem eight_pages_defined : ∃ (s₀ s : Session) (sp sp' : AddressSpace) (r : Region),
    s₀.objects = [] ∧ Runs (fun _ _ => True) s₀ [(.newSpace, true)] s ∧
      s.object 0 = some (.space sp) ∧ sp.Defines textStart 1 ⟨true, false, true⟩ r sp' ∧
        r.size = pageSize ∧ ((perform (.addRegion 0 textStart 1 ⟨true, false, true⟩)).run s = .done ()
          ((s.withKernel (s.kernel.push (.regionDefined r))).put 0 (some (.space sp')))) ∧
            (perform (.addRegion 0 textStart 18446744073709551615 ⟨true, false, true⟩)).run s =
              .refused .invalidRegion (s.withKernel (s.kernel.push
                (.regionRejected textStart 18446744073709551615 sp.stackTop))) := by
  obtain ⟨s₀, s, sp, hboot, -, hmade, -, -, halone, -, -⟩ :=
    exists_alone (n := 8) (by decide) (by decide)
  have hruns : Runs (fun _ _ => True) s₀ [(.newSpace, true)] s := .granted .start trivial hmade
  have hdefines := addRegion_defines hboot.objects_eq hruns halone.object_eq textStart
  have hlow : roundUp (textStart.val + 1) = 0x401000 := by decide
  obtain ⟨sp', r, hr, hrun⟩ := (hdefines 1 ⟨true, false, true⟩).1 (by rw [hlow]; decide)
  have hsize : r.size = pageSize := by
    have hpast := hr.past_eq
    have hbase : r.base.val = 0x400000 := hr.base_eq
    rw [hlow, hbase] at hpast
    exact Nat.add_left_cancel hpast
  exact ⟨s₀, s, sp, sp', r, hboot.objects_eq, hruns, halone.object_eq, hr, hsize, hrun,
    (hdefines 18446744073709551615 ⟨true, false, true⟩).2 (by decide)⟩

end Session

end SoftPaging
