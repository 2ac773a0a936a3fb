import Mathlib
import SoftPaging.Proofs.Session.Lasting

/-!
# What the MMU sees of a request

Only three kinds of request reach the MMU: a fault installs an entry, the end of a load invalidates
the TLB, and the client may drive the MMU itself. All others leave it as it is, however they end
(`perform_steady`), because they do nothing but run operations on the kernel and change the books.
-/

namespace SoftPaging

open Outcome

/-- The request does nothing to the MMU. -/
def Request.Steady : Request → Prop
  | endLoad _ | fault _ _ _ | drive _ => False
  | _ => True

namespace Session

variable {α : Type} {i : Nat} {mmu : Mmu TlbBuffer}

/-- An act leaves the MMU as it is, however it ends. -/
def Steady (x : Act α) : Prop :=
  ∀ s, (x.run s).Meets (fun _ s' => s'.mmu = s.mmu) (fun _ s' => s'.mmu = s.mmu) fun _ => True

theorem steady_of_upholds {x : Act α} (h : ∀ mmu, Upholds (·.mmu = mmu) x) : Steady x :=
  fun s => h s.mmu s rfl

theorem lasting_mmu (mmu : Mmu TlbBuffer) : Lasting (·.mmu = mmu) where
  withKernel _ := id
  withBlocks _ := id
  put_none _ := id
  keep _ := id

/-- Work on an address space that hands back the MMU it was given. -/
theorem upholds_mmu_onSpace {x : AddressSpace → Op AddressSpace} :
    Upholds (·.mmu = mmu) (onSpace i fun sp mmu => do return (← x sp, mmu)) :=
  (lasting_mmu mmu).onSpace fun _ _ hmmu _ =>
    Transition.answers_bind fun _ => Transition.answers_pure fun _ => hmmu

/-- The MMU is as it was after any request that does not reach it. -/
theorem perform_steady {r : Request} (hr : r.Steady) : Steady (perform r) := by
  refine steady_of_upholds fun mmu => ?_
  cases r with
  | addRegion j start size permissions => exact upholds_mmu_onSpace
  | beginLoad j => exact upholds_mmu_onSpace (x := fun sp => pure sp.beginLoad)
  | copySpace j =>
    exact (lasting_mmu mmu).copySpace fun _ _ _ _ => (Transition.answers_any _).mono fun _ _ _ => id
  | endLoad j => exact hr.elim
  | fault j? code a => exact hr.elim
  | drive f => exact hr.elim
  | _ => exact (lasting_mmu mmu).perform trivial

end Session

end SoftPaging
