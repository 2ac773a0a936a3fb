import Mathlib
import SoftPaging.Proofs.Session.Rejection

/-!
# All objects but one

An operation on one object that writes to no frame of the others leaves everything else as it was: the
blocks of the client, the other objects, the slots and entries of their page tables, and the bytes of
their frames (`ChangesOnly`).
-/

namespace SoftPaging

namespace Session

variable {p : FramePool} {s s' : Session} {i : Nat}

/-- Nothing that belongs to the client or to an object at another place is different. -/
structure ChangesOnly (s : Session) (i : Nat) (s' : Session) : Prop where
  blocks_eq : s'.blocks = s.blocks
  object_eq : ∀ j, j ≠ i → s'.object j = s.object j
  slot_eq : ∀ j o t, j ≠ i → s.object j = some o → o.table? = some t →
    ∀ n, t.slotIn s'.kernel.ram n = t.slotIn s.kernel.ram n
  entry_eq : ∀ j o t, j ≠ i → s.object j = some o → o.table? = some t →
    ∀ a, t.entryIn s'.kernel.ram a = t.entryIn s.kernel.ram a
  byte_eq : ∀ n, n / pageSize ∈ framesOf (s.put i none).owned →
    s'.kernel.ram.byte n = s.kernel.ram.byte n

theorem Sound.changesOnly (h : s.Sound p) (hblocks : s'.blocks = s.blocks)
    (hobjects : ∀ j, j ≠ i → s'.object j = s.object j)
    (hsame : s.kernel.ram.SameBlocks s'.kernel.ram (s.put i none).owned) : s.ChangesOnly i s' := by
  have hshows {j : Nat} {o : Object} {t : PageTable} (hj : j ≠ i) (ho : s.object j = some o)
      (ht : o.table? = some t) : t.Shows s'.kernel.ram (t.mapIn s.kernel.ram) := by
    have hput : (s.put i none).object j = some o := by rw [object_put_of_ne (Ne.symm hj), ho]
    refine (h.held ho ht).shows.congr fun f hf => hsame f ?_
    refine mem_owned_of_mem hput ?_
    rw [kernel_put, Object.blocksIn_of_table? ht]
    exact t.skeleton_subset _ hf
  refine ⟨hblocks, hobjects, ?_, ?_, fun n hn => hsame _ hn n rfl⟩
  · intro j o t hj ho ht n
    rw [(hshows hj ho ht).slotIn_eq, (h.held ho ht).shows.slotIn_eq]
  · intro j o t hj ho ht a
    rw [(hshows hj ho ht).entryIn_eq, (h.held ho ht).shows.entryIn_eq]

end Session

end SoftPaging
