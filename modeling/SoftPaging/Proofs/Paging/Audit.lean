import Mathlib
import SoftPaging.Proofs.Paging.Becomes
import SoftPaging.Proofs.Paging.Copying
import SoftPaging.Proofs.Pool.Audit

/-!
# Page tables account for their frames

Every operation on a page table is audited. Its frames come from the pool and go back to it one by
one, and what it writes itself goes to tables of its own, which lie in frames that were granted. So
what has to be known of the table is no more than where its directory and its second-level tables
lie; a table that is held has them there (`Held.directory_grants`, `Held.audited_slotNumbered`).

A loop over a table reads it between its steps. That the table is still in order then is what the
invariants of the loops are about, which say what each round leaves behind.
-/

namespace SoftPaging

open Outcome FramePool

variable {p : FramePool} {k : Kernel} {a : PhysicalAddress}

/-! ## Writing to a frame -/

namespace Ram

/-- A copy writes to nothing but its target. -/
theorem byte_copy_of_not_mem (ram : Ram) (source target n : Nat) {j : Nat}
    (h : j < target ∨ target + n ≤ j) : (ram.copy source target n).byte j = ram.byte j := by
  induction n generalizing ram source target with
  | zero => rfl
  | succ n ih => rw [copy, ih _ _ _ (by omega), byte_store, if_neg (by omega)]

end Ram

namespace FramePool

theorem audits_fillFrame (ha : p.Grants a) (v : UInt8) :
    p.Audits (Op.onRam fun ram => ram.fill a.val pageSize v) fun _ => True := by
  rw [Address.val_eq_of_aligned ha.1]
  exact audits_onRam ha.2 fun ram => ram.sameOff_fill _ v

theorem audits_copyFrame (ha : p.Grants a) (source : Nat) :
    p.Audits (Op.onRam fun ram => ram.copy source a.val pageSize) fun _ => True := by
  rw [Address.val_eq_of_aligned ha.1]
  refine audits_onRam ha.2 fun ram => ⟨Ram.size_copy _ _ _ _, fun j hj => ?_⟩
  apply ram.byte_copy_of_not_mem
  simp only [pageSize] at *
  omega

/-- The words of a table fill its frame. -/
theorem audits_storeWord (ha : p.Grants a) (i : Fin 1024) (w : UInt32) :
    p.Audits (Op.onRam fun ram => ram.storeWord (a.val + 4 * i.val) w) fun _ => True := by
  have hi := i.isLt
  rw [Address.val_eq_of_aligned ha.1]
  exact audits_onRam ha.2 fun ram => ram.sameOff_storeWord w (Nat.le_add_right _ _)
    (by simp only [pageSize]; omega)

end FramePool

/-! ## Second-level tables -/

namespace EntryTable

variable {t : EntryTable}

theorem audits_create : p.Audits create fun t => p.Grants t.frame :=
  (audits_takeFrame p).bind fun _ hframe => (audits_fillFrame hframe 0).bind fun _ _ =>
    (Audits.lift _).bind fun _ _ => .pure hframe

theorem audits_entry (t : EntryTable) (i : Fin tableEntries) :
    p.Audits (t.entry i) fun _ => True :=
  (audits_reachFrame p t.frame).bind fun _ _ => audits_look p _

theorem audits_setEntry (ht : p.Grants t.frame) (i : Fin tableEntries) (e : PageEntry) :
    p.Audits (t.setEntry i e) fun _ => True :=
  (audits_reachFrame p t.frame).bind fun _ _ => audits_storeWord ht i e.bits

theorem audits_releaseEntry (ht : p.Grants t.frame) (i : Fin tableEntries) :
    p.Audits (t.releaseEntry i) fun _ => True := by
  refine (audits_entry t i).bind fun e _ => ?_
  cases e.frame? with
  | some frame => exact (audits_freeOwned p frame).bind fun _ _ => audits_setEntry ht i .empty
  | none => exact .pure trivial

theorem audits_release (ht : p.Grants t.frame) : p.Audits t.release fun _ => True :=
  (audits_reachFrame p t.frame).bind fun _ _ =>
    (Audits.forM (audits_releaseEntry ht) _).bind fun _ _ => audits_freeOwned p t.frame

end EntryTable

/-! ## Page tables -/

namespace PageTable

variable {t u : PageTable} {m n n' : TableMap} {rest live : List Block} {i : Fin directorySlots}
  {l : Leaf} {β : Type}

theorem audits_create : p.Audits create fun t => p.Grants t.directory :=
  (audits_takeFrame p).bind fun _ hframe => (audits_fillFrame hframe 0).bind fun _ _ =>
    (Audits.lift _).bind fun _ _ => .pure hframe

theorem audits_setSlot (ht : p.Grants t.directory) (i : Fin directorySlots)
    (leaf? : Option EntryTable) : p.Audits (t.setSlot i leaf?) fun _ => True :=
  (audits_reachFrame p t.directory).bind fun _ _ => audits_storeWord ht i _

namespace Held

theorem grants_frameAt {f : Nat} (hk : k.Holds p live) (hf : f ∈ framesOf live) :
    p.Grants (frameAt f) :=
  hk.sound.grants (hk.frame_bounds hf).1 (hk.frame_bounds hf).2

theorem directory_grants (h : t.Held k p m rest) : p.Grants t.directory := by
  rw [h.shows.directory_eq]
  exact grants_frameAt h.holds h.frame_mem

theorem leaf_grants (h : t.Held k p m rest) {leaf : EntryTable}
    (hleaf : (m i).map Leaf.table = some leaf) : p.Grants leaf.frame := by
  obtain ⟨l, hl, rfl⟩ := Option.map_eq_some_iff.1 hleaf
  exact grants_frameAt h.holds (h.leaf_mem hl)

/-- What follows on looking at a slot may take the second-level table in it for granted. -/
theorem audited_slot (h : t.Held k p m rest) (i : Fin directorySlots)
    {f : Option EntryTable → Op β} {R : β → Prop}
    (hf : ∀ leaf?, (∀ leaf, leaf? = some leaf → p.Grants leaf.frame) → p.Audits (f leaf?) R) :
    k.Audited p (fun b _ => R b) ((t.slot i >>= f).run k) := by
  rw [Transition.run_bind, h.run_slot, andThen_done]
  exact hf _ (fun _ => h.leaf_grants) k _ h.holds.toLends

theorem audited_slotNumbered (h : t.Held k p m rest) (slot : Nat)
    {f : Fin directorySlots × Option EntryTable → Op β} {R : β → Prop}
    (hf : ∀ i leaf?, (∀ leaf, leaf? = some leaf → p.Grants leaf.frame) →
      p.Audits (f (i, leaf?)) R) :
    k.Audited p (fun b _ => R b) ((t.slotNumbered slot >>= f).run k) := by
  rw [Transition.run_bind]
  rcases Nat.lt_or_ge slot directorySlots with hslot | hslot
  · obtain ⟨i, rfl⟩ : ∃ i : Fin directorySlots, i.val = slot := ⟨⟨slot, hslot⟩, rfl⟩
    rw [h.run_slotNumbered, andThen_done]
    exact hf i _ (fun _ => h.leaf_grants) k _ h.holds.toLends
  · rw [run_slotNumbered_of_le h hslot]
    exact .halted trivial

theorem audited_openSlot (h : t.Held k p m rest) (slot : Nat) :
    k.Audited p (fun _ _ => True) ((t.openSlot slot).run k) := by
  refine h.audited_slotNumbered slot fun i leaf? _ => ?_
  dsimp only
  split
  · exact .pure trivial
  · exact EntryTable.audits_create.bind fun leaf _ => (audits_record p id).bind fun _ _ =>
      (audits_setSlot h.directory_grants i _).bind fun _ _ => .pure trivial

theorem audited_closeSlot (h : t.Held k p m rest) (slot : Nat) :
    k.Audited p (fun _ _ => True) ((t.closeSlot slot).run k) := by
  refine h.audited_slotNumbered slot fun i leaf? hleaf => ?_
  cases leaf? with
  | some leaf =>
    exact (audits_setSlot h.directory_grants i none).bind fun _ _ =>
      (audits_record p id).bind fun _ _ => EntryTable.audits_release (hleaf leaf rfl)
  | none => exact .pure trivial

theorem audited_mapPage (h : t.Held k p m rest) (slot entry : Nat) (writable : Bool) :
    k.Audited p (fun _ _ => True) ((t.mapPage slot entry writable).run k) := by
  refine h.audited_slotNumbered slot fun i leaf? hleaf => ?_
  cases leaf? with
  | none => exact .halt _
  | some leaf =>
    refine (audits_reachFrame p leaf.frame).bind fun _ _ => (Audits.lift _).bind fun j _ =>
      (leaf.audits_entry j).bind fun old _ => ?_
    split
    · exact .pure trivial
    · exact (audits_allocateCleared p 1).bind fun frame _ => (Audits.lift _).bind fun new _ =>
        (EntryTable.audits_setEntry (hleaf leaf rfl) j new).bind fun _ _ =>
          (audits_record p id).bind fun _ _ => .pure trivial

theorem audited_writeProtect (h : t.Held k p m rest) (a : VirtualAddress) :
    k.Audited p (fun _ _ => True) ((t.writeProtect a).run k) := by
  refine h.audited_slot a.directoryIndex fun leaf? hleaf => ?_
  cases leaf? with
  | none => exact .pure trivial
  | some leaf =>
    refine (leaf.audits_entry a.tableIndex).bind fun old _ => ?_
    split
    · exact (EntryTable.audits_setEntry (hleaf leaf rfl) _ _).bind fun _ _ => .pure trivial
    · exact .pure trivial

/-! ## Giving back -/

theorem audited_release (h : t.Held k p m rest) :
    k.Audited p (fun _ _ => True) (t.release.run k) := by
  have hdir := h.shows.directory_eq
  unfold PageTable.release
  rw [Transition.run_bind, h.run_reachDirectory, andThen_done]
  refine (Kernel.Audited.forM (I := t.Remains k p m rest) ?_ _ h.remains).bind
    fun _ k₁ hremains => audits_freeOwned p _ k₁ _ hremains.holds.toLends
  intro i is k₁ hremains
  obtain ⟨k₂, hrun, hremains'⟩ := hremains.step hdir
  have haudited : k₁.Audited p (fun _ _ => True) ((t.releaseSlot i).run k₁) := by
    unfold releaseSlot
    rw [Transition.run_bind, hremains.run_slot hdir, andThen_done]
    cases hl : m i with
    | none => exact .done ⟨.refl, trivial⟩
    | some l =>
      have hleaf := hremains.leaf_held hl
      exact EntryTable.audits_release (grants_frameAt hleaf.holds hleaf.frame_mem) k₁ _
        hleaf.holds.toLends
  exact haudited.of_done hrun hremains'

theorem audited_tearDown (h : t.Held k p m rest) :
    k.Audited p (fun _ _ => True) (t.tearDown.run k) := by
  unfold PageTable.tearDown
  rw [Transition.run_bind, h.run_openSlots, andThen_done, Transition.run_bind, Op.run_record,
    andThen_done]
  exact (h.push _).audited_release.after (.note .refl id)

/-! ## Copying -/

theorem audited_copyPage (h : u.Held k p n rest) (i : Fin directorySlots) (j : Fin tableEntries)
    (source : PhysicalAddress) (flags : PageFlags) :
    k.Audited p (fun _ _ => True) ((u.copyPage i j source flags).run k) := by
  refine h.audited_slot i fun leaf? hleaf => ?_
  cases leaf? with
  | none => exact .halt _
  | some leaf =>
    have hcopy : p.Audits (do
        let frame ← Op.allocate 1
        Op.reachFrame source
        Op.reachFrame frame
        Op.onRam fun ram => ram.copy source.val frame.val pageSize
        leaf.setEntry j (← PageEntry.map frame flags)) fun _ => True :=
      (audits_allocate p 1).bind fun frame hframe => (audits_reachFrame p source).bind fun _ _ =>
        (audits_reachFrame p frame).bind fun _ _ => (audits_copyFrame hframe _).bind fun _ _ =>
          (Audits.lift _).bind fun new _ => EntryTable.audits_setEntry (hleaf leaf rfl) j new
    refine (leaf.audits_entry j).bind fun old _ => ?_
    dsimp only
    split
    · exact (Audits.halt (Q := fun _ => True) _).bind fun _ _ => hcopy
    · exact hcopy

end Held

namespace Copying

variable {V : Set (Fin directorySlots × Fin tableEntries)} {S : Set (Fin directorySlots)}
  {k₀ : Kernel}

theorem audited_copyEntry (h₀ : u.Held k₀ p n (t.blocks m ++ rest)) (ht : t.Shows k₀.ram m)
    (h : Copying p t u m n rest k₀ V S n' k) (hl : m i = some l) (j : Fin tableEntries) :
    k.Audited p (fun _ _ => True) ((copyEntry l.table u i j).run k) := by
  unfold copyEntry
  rw [Transition.run_bind, (h.source_shows h₀ ht).run_entry hl j, andThen_done]
  split
  · exact h.held.audited_copyPage i j _ _
  · exact .done ⟨.refl, trivial⟩

theorem audited_copySlot (h₀ : u.Held k₀ p n (t.blocks m ++ rest)) (ht : t.Shows k₀.ram m)
    {is : List (Fin directorySlots)} (his : i :: is <:+ List.finRange directorySlots)
    (h : Copying p t u m n rest k₀ (visitedSlots (i :: is)) S n' k) :
    k.Audited p (fun _ _ => True) ((t.copySlot u i).run k) := by
  unfold copySlot
  rw [Transition.run_bind, (h.source_shows h₀ ht).run_slot, andThen_done]
  cases hl : m i with
  | none => exact .done ⟨.refl, trivial⟩
  | some l =>
    have hopen := (h.held.audited_openSlot i.val).and
      (h.run_openSlot (H := fun _ => True) (initial_visitedSlots his) (by rw [hl]; rfl))
    refine hopen.discard.bind ?_
    rintro _ k₁ ⟨n₁, hcopying⟩
    have hsource := hcopying.source_shows h₀ ht
    have hreach := hsource.holds.run_reachFrame (hsource.leaf_mem hl)
    rw [Transition.run_bind, show l.table.frame = frameAt l.frame from rfl, hreach, andThen_done]
    have hloop := Kernel.Audited.forM (p := p) (f := copyEntry l.table u i)
      (I := AtEntry p t u m n rest k₀ i is (insert i S))
      (fun j js k₂ hat => ?_) _ (atEntry_start hcopying)
    · exact hloop.forget
    · have hstep := hat.step h₀ ht his hl (Set.mem_insert i S)
      obtain ⟨-, n₂, hcopying₂⟩ := hat
      exact (audited_copyEntry h₀ ht hcopying₂ hl j).and hstep

end Copying

/-- Copying is audited, also when it breaks off. -/
theorem audited_copyTo (h₀ : u.Held k p n (t.blocks m ++ rest)) (ht : t.Shows k.ram m) :
    k.Audited p (fun _ _ => True) ((t.copyTo u).run k) := by
  have hloop := Kernel.Audited.forM (p := p) (f := t.copySlot u)
    (I := Copying.AtSlot p t u m n rest k) (fun i is k₁ hat => ?_) _ (Copying.atSlot_start h₀)
  · exact hloop.forget
  · have hstep := hat.step h₀ ht
    obtain ⟨his, n₁, hcopying⟩ := hat
    exact (Copying.audited_copySlot h₀ ht his hcopying).and hstep

end PageTable

end SoftPaging
