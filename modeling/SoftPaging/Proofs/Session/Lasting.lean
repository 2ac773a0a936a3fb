import Mathlib
import SoftPaging.Proofs.Session.Cells
import SoftPaging.Proofs.Session.Tables
import SoftPaging.Proofs.Space.Answering

/-!
# Properties that last

Most of what a client does runs operations on the kernel and changes the books: a block is noted or
struck out, an object is added or goes. A property of sessions that none of these can end
(`Session.Lasting`) is upheld by every request but those that work on the regions of a space or on the
MMU (`Lasting.perform`), whatever memory holds. For those requests there is one rule
(`meets_onSpace`), and what their operations answer decides.
-/

namespace SoftPaging

open Outcome

/-- The request does not work on the regions of a space or on the MMU. -/
def Request.Plain : Request → Prop
  | addRegion _ _ _ _ | beginLoad _ | endLoad _ | fault _ _ _ | copySpace _ | drive _ => False
  | _ => True

namespace Session

variable {α β : Type} {i : Nat} {I : Session → Prop}

/-- The act leaves a session with the property if it was done or refused on one. -/
def Upholds (I : Session → Prop) (x : Act α) : Prop :=
  ∀ s, I s → (x.run s).Meets (fun _ s' => I s') (fun _ s' => I s') fun _ => True

/-- The property does not depend on the kernel or on the blocks of the client, and objects may go and
fit ones be added. -/
structure Lasting (I : Session → Prop) : Prop where
  withKernel : ∀ {s : Session} (k : Kernel), I s → I (s.withKernel k)
  withBlocks : ∀ {s : Session} (blocks : List Block), I s → I { s with blocks := blocks }
  put_none : ∀ {s : Session} (i : Nat), I s → I (s.put i none)
  keep : ∀ {s : Session} {o : Object}, o.Fit → I s → I (s.keep o)

/-! ## Acts -/

theorem upholds_pure (a : α) : Upholds I (pure a : Act α) := fun _ h => .done h

theorem upholds_change {f : Session → Session} (hf : ∀ s, I s → I (f s)) :
    Upholds I (Transition.change f : Act Unit) := fun s h => .done (hf s h)

theorem Upholds.bind {x : Act α} {f : α → Act β} (hx : Upholds I x) (hf : ∀ a, Upholds I (f a)) :
    Upholds I (x >>= f) := fun s h => Transition.Meets.bind (hx s h) fun a s' h' => hf a s' h'

theorem Upholds.discard {x : Act α} (hx : Upholds I x) : Upholds I (discard x) :=
  fun s h => Transition.Meets.discard (hx s h)

/-- An act that looks at the session first. -/
theorem upholds_observe {g : Session → β} {f : β → Act α} (hf : ∀ b, Upholds I (f b)) :
    Upholds I (Transition.observe g >>= f) := Upholds.bind (fun _ h => .done h) hf

/-- Working on a space and the MMU: what comes of it has the property if it has for each answer. -/
theorem meets_onSpace {s : Session} (hs : I s) (hkernel : ∀ k, I (s.withKernel k))
    {f : AddressSpace → Mmu TlbBuffer → Op (AddressSpace × Mmu TlbBuffer)}
    (hf : ∀ sp, s.object i = some (.space sp) → (f sp s.mmu).Answers fun after => ∀ k,
      I { (s.withKernel k).put i (some (.space after.1)) with mmu := after.2 }) :
    ((onSpace i f).run s).Meets (fun _ s' => I s') (fun _ s' => I s') fun _ => True := by
  rcases s.space_cases i with ⟨sp, ho⟩ | hspace
  · rw [run_onSpace ho]
    refine Outcome.Meets.andThen (op_meets ?_)
    cases hrun : (f sp s.mmu).run s.kernel with
    | done after k => exact .done (.done ((hf sp ho).of_done hrun k))
    | refused cause k => exact .refused (hkernel k)
    | halted cause => exact .halted trivial
  · rw [run_onSpace_of_no_space hspace]
    exact .done hs

namespace Lasting

variable (hI : Lasting I)
include hI

theorem op (x : Op α) : Upholds I (op x) := by
  intro s h
  refine op_meets ?_
  cases x.run s.kernel with
  | done a k => exact .done (hI.withKernel k h)
  | refused cause k => exact .refused (hI.withKernel k h)
  | halted cause => exact .halted trivial

/-- Making an object that can be added. -/
theorem make {object : α → Object} {x : Op α}
    (hx : x.Answers fun a => ∀ s, I s → I (s.keep (object a))) : Upholds I (make object x) := by
  intro s h
  refine Outcome.Meets.andThen (op_meets ?_)
  cases hrun : x.run s.kernel with
  | done a k => exact .done (.done (hx.of_done hrun _ (hI.withKernel k h)))
  | refused cause k => exact .refused (hI.withKernel k h)
  | halted cause => exact .halted trivial

/-- Making an object that is fit. -/
theorem makeFit {object : α → Object} {x : Op α} (hx : x.Answers fun a => (object a).Fit) :
    Upholds I (Session.make object x) :=
  hI.make (hx.mono fun _ hfit _ => hI.keep hfit)

theorem lend (count : Nat) (a : PhysicalAddress) : Upholds I (lend count a) :=
  upholds_change fun s h => hI.withBlocks (⟨a.number.val, count⟩ :: s.blocks) h

theorem giveBack (a : PhysicalAddress) : Upholds I (giveBack a) :=
  upholds_change fun s h => hI.withBlocks (s.blocks.eraseP (·.first = a.number.val)) h

theorem onTable (f : PageTable → Op Unit) : Upholds I (onTable i f) := by
  refine upholds_observe fun o? => ?_
  cases o?.bind Object.table? with
  | none => exact upholds_pure ()
  | some t => exact hI.op (f t)

theorem consume {x : Object → Option (Act Unit)} (hx : ∀ o act, x o = some act → Upholds I act) :
    Upholds I (consume i x) := by
  refine upholds_observe fun o? => ?_
  cases hact : o?.bind x with
  | none => exact upholds_pure ()
  | some act =>
    obtain ⟨o, -, hact⟩ := Option.bind_eq_some_iff.1 hact
    exact Upholds.bind (upholds_change fun s h => hI.put_none i h) fun _ => hx o act hact

theorem onSpace {f : AddressSpace → Mmu TlbBuffer → Op (AddressSpace × Mmu TlbBuffer)}
    (hf : ∀ s sp, I s → s.object i = some (.space sp) → (f sp s.mmu).Answers fun after => ∀ k,
      I { (s.withKernel k).put i (some (.space after.1)) with mmu := after.2 }) :
    Upholds I (onSpace i f) :=
  fun s h => meets_onSpace h (fun k => hI.withKernel k h) fun sp ho => hf s sp h ho

/-! ## Requests for frames and cells -/

theorem allocatePages (count : Nat) : Upholds I (perform (.allocatePages count)) := by
  refine (hI.op _).bind fun v? => ?_
  cases v? with
  | none => exact upholds_pure ()
  | some v => exact (hI.op _).bind fun a => hI.lend count a

theorem newCell (kind : CellKind) (d : Datum) : Upholds I (perform (.newCell kind d)) := by
  intro s h
  rw [run_newCell]
  cases d.value? kind with
  | none => exact upholds_pure () s h
  | some v => exact hI.makeFit (Transition.answers_any _) s h

theorem nest : Upholds I (perform (.nest i)) := by
  refine hI.consume fun o act hact => ?_
  cases o with
  | cell kind c =>
    obtain rfl := Option.some.inj hact
    exact hI.makeFit (Transition.answers_any _)
  | table t => cases hact
  | space sp => cases hact

theorem setCell (d : Datum) : Upholds I (perform (.setCell i d)) := by
  intro s h
  rcases run_setCell_cases s i d with hrun | ⟨kind, c, v, -, -, hrun⟩
  · rw [hrun s rfl]
    exact .done h
  · rw [hrun s rfl]
    exact hI.op _ s h

theorem setNested (inner : Nat) : Upholds I (perform (.setNested i inner)) := by
  intro s h
  rcases run_setNested_cases s i inner with ⟨-, hrun⟩ | ⟨kind, c, -, hrun⟩
  · rw [hrun s rfl]
    exact .done h
  · rw [hrun s rfl]
    refine hI.consume (fun o act hact => ?_) s h
    obtain ⟨c', -, rfl⟩ := Option.map_eq_some_iff.1 hact
    exact hI.op _

theorem setElement (index : Nat) (w : UInt16) : Upholds I (perform (.setElement i index w)) := by
  intro s h
  rcases run_setElement_cases s i index w with hrun | ⟨c, -, hrun⟩
  · rw [hrun s rfl]
    exact .done h
  · rw [hrun s rfl]
    exact hI.op _ s h

/-! ## Requests for page tables and address spaces -/

theorem copyTable (target : Nat) : Upholds I (perform (.copyTable i target)) := by
  intro s h
  by_cases hsame : i = target
  · subst hsame
    rw [run_copyTable_self]
    exact .done h
  rw [run_copyTable hsame]
  cases (s.object i).bind Object.table? with
  | none => exact .done h
  | some t => exact hI.onTable _ s h

theorem copySpace (hcopy : ∀ s sp, I s → s.object i = some (.space sp) → sp.copy.Answers fun c =>
    ∀ s, I s → I (s.keep (.space c))) : Upholds I (perform (.copySpace i)) := by
  intro s h
  rcases s.space_cases i with ⟨sp, ho⟩ | hspace
  · rw [run_copySpace ho]
    exact hI.make (hcopy s sp h ho) s h
  · rw [run_copySpace_of_no_space hspace]
    exact .done h

theorem tearDown : Upholds I (perform (.tearDown i)) := by
  refine hI.consume fun o act hact => ?_
  cases o with
  | cell kind c => cases hact
  | table t =>
    obtain rfl := Option.some.inj hact
    exact hI.op _
  | space sp => cases hact

theorem destroy : Upholds I (perform (.destroy i)) := by
  refine hI.consume fun o act hact => ?_
  cases o with
  | cell kind c => cases hact
  | table t => cases hact
  | space sp =>
    obtain rfl := Option.some.inj hact
    exact hI.op _

theorem release : Upholds I (perform (.release i)) := by
  refine hI.consume fun o act hact => ?_
  obtain rfl := Option.some.inj hact
  exact hI.op _

/-! ## Any request -/

theorem perform {r : Request} (hr : r.Plain) : Upholds I (perform r) := by
  cases r with
  | allocate count | allocateCleared count => exact (hI.op _).bind fun a => hI.lend count a
  | allocatePages count => exact hI.allocatePages count
  | free a => exact (hI.op (Op.free a)).discard.bind fun _ => hI.giveBack a
  | mustFree a => exact (hI.op _).bind fun _ => hI.giveBack a
  | freePages v => exact (hI.op _).bind fun _ => (hI.op _).bind fun a => hI.giveBack a
  | poke a v => exact hI.op _
  | newCell kind d => exact hI.newCell kind d
  | nest j => exact hI.nest
  | setCell j d => exact hI.setCell d
  | setNested j inner => exact hI.setNested inner
  | setElement j index w => exact hI.setElement index w
  | newTable => exact hI.makeFit (Transition.answers_any _)
  | openSlot j slot | closeSlot j slot | mapPage j slot entry writable | writeProtect j a
  | store j a v => exact hI.onTable _
  | copyTable j target => exact hI.copyTable target
  | tearDown j => exact hI.tearDown
  | newSpace => exact hI.makeFit AddressSpace.create_answers
  | destroy j => exact hI.destroy
  | release j => exact hI.release
  | addRegion j start size permissions => exact hr.elim
  | beginLoad j => exact hr.elim
  | endLoad j => exact hr.elim
  | fault j? code a => exact hr.elim
  | copySpace j => exact hr.elim
  | drive f => exact hr.elim

end Lasting

end Session

end SoftPaging
