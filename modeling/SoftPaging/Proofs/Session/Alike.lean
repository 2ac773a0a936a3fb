import Mathlib
import SoftPaging.Proofs.Cell.Alike
import SoftPaging.Proofs.Session.Locality
import SoftPaging.Proofs.Space.Alike

/-!
# Sessions that look alike

Two sessions are alike up to the bytes at `X` when their kernels are, and they have the same blocks,
objects and MMU (`Session.Alike`). A session conceals what is at `X` when none of it is read by way of
an object or lies in one of the blocks of which the client knows what they hold
(`Session.Conceals`). Of a page table everything is read, its pages included; of a cell, the bytes of
its value and what these lead to.

A request may show more than was shown before, but only of the objects it works on; what it leaves
alone shows what it showed (`Shadows.conceals_of_leads`).
-/

namespace SoftPaging

open Outcome

/-! ## What is read by way of an object -/

/-- What is read by way of the values of a kind. -/
instance CellKind.legible : (kind : CellKind) → Legible kind.Value
  | byte => inferInstanceAs (Legible UInt8)
  | word => inferInstanceAs (Legible UInt32)
  | halves => inferInstanceAs (Legible Halves)
  | nested inner =>
    let _ := legible inner
    inferInstanceAs (Legible (Option (FrameCell inner.Value)))

theorem Datum.shows_nothing {d : Datum} {kind : CellKind} {v : kind.Value}
    (h : d.value? kind = some v) (ram : Ram) : Legible.shownIn ram v = ∅ := by
  cases d <;> cases kind <;> cases h <;> rfl

namespace Object

/-- The bytes that are read by way of an object. -/
def shownIn (ram : Ram) : Object → Set Nat
  | cell _ c => c.shownIn ram
  | table t => bytesOf (t.blocks (t.mapIn ram))
  | space s => bytesOf (s.table.blocks (s.table.mapIn ram))

variable {o : Object} {ram ram' : Ram} {t : PageTable}

theorem shownIn_of_table? (h : o.table? = some t) (ram : Ram) :
    o.shownIn ram = bytesOf (t.blocks (t.mapIn ram)) := by
  cases o <;> cases h <;> rfl

/-- An object shows nothing that it does not own. -/
theorem shownIn_subset (h : o.Good ram) : o.shownIn ram ⊆ bytesOf (o.blocksIn ram) := by
  cases o with
  | cell kind c => exact FrameCell.shownIn_subset h
  | table t => exact subset_rfl
  | space s => exact subset_rfl

/-- Which bytes are read by way of an object can be read off its skeleton. -/
theorem shownIn_congr (hsame : ∀ f ∈ o.skeletonIn ram, ram.SameFrame ram' f) (h : o.Good ram) :
    o.shownIn ram' = o.shownIn ram := by
  cases o with
  | cell kind c =>
    exact (FrameCell.congr_of_shown fun n hn => hsame _ (FrameCell.shownIn_subset h hn) n rfl).1
  | table t => exact congrArg bytesOf (congr hsame h).1
  | space s => exact congrArg bytesOf (congr hsame h).1

/-- What an object owns can be told by the bytes that are read by way of it. -/
theorem congr_of_shown (hsame : ∀ n ∈ o.shownIn ram, ram'.byte n = ram.byte n) (h : o.Good ram) :
    o.blocksIn ram' = o.blocksIn ram ∧ o.skeletonIn ram' = o.skeletonIn ram := by
  cases o with
  | cell kind c =>
    have hblocks := (FrameCell.congr_of_shown hsame).2.2
    exact ⟨hblocks, congrArg framesOf hblocks⟩
  | table t =>
    have hcongr := congr (o := table t) (fun f hf n hn => hsame n ?_) h
    · exact ⟨hcongr.1, hcongr.2.1⟩
    · exact t.skeleton_subset _ (hn ▸ hf)
  | space s =>
    have hcongr := congr (o := space s) (fun f hf n hn => hsame n ?_) h
    · exact ⟨hcongr.1, hcongr.2.1⟩
    · exact s.table.skeleton_subset _ (hn ▸ hf)

end Object

/-- The request was granted or refused, and led from the session `s` to the session `s₁`. -/
def Request.Leads (r : Request) (s s₁ : Session) : Prop :=
  (Session.perform r).run s = .done () s₁ ∨
    ∃ cause, (Session.perform r).run s = .refused cause s₁

namespace Session

variable {p : FramePool} {X Y : Set Nat} {C : Set Block} {s s' s₁ : Session} {i j : Nat} {o : Object}
  {k k' : Kernel} {r : Request}

/-! ## What a session owns -/

theorem mem_owned {f : Nat} : f ∈ framesOf s.owned ↔
    f ∈ framesOf s.blocks ∨ ∃ i o, s.object i = some o ∧ f ∈ framesOf (o.blocksIn s.kernel.ram) := by
  unfold owned
  rw [mem_framesOf_append, mem_objectBlocks]
  refine or_congr_right ⟨?_, ?_⟩
  · rintro ⟨o, ho, hf⟩
    obtain ⟨i, hi⟩ := List.mem_iff_getElem?.1 ho
    exact ⟨i, o, object_eq_some.2 hi, hf⟩
  · rintro ⟨i, o, ho, hf⟩
    exact ⟨o, List.mem_of_getElem? (object_eq_some.1 ho), hf⟩

/-- What there is besides the object at a place. -/
theorem object_put_none : (s.put i none).object j = some o ↔ j ≠ i ∧ s.object j = some o := by
  by_cases hj : j = i
  · subst hj
    have hnone : (s.put j none).object j = none := by
      unfold object put
      rw [List.getElem?_set_self']
      cases s.objects[j]? <;> rfl
    simp [hnone]
  · simp [object_put_of_ne (Ne.symm hj), hj]

/-- What is owned beside the object at a place. -/
theorem mem_owned_put_none {f : Nat} : f ∈ framesOf (s.put i none).owned ↔
    f ∈ framesOf s.blocks ∨
      ∃ j o, j ≠ i ∧ s.object j = some o ∧ f ∈ framesOf (o.blocksIn s.kernel.ram) := by
  rw [mem_owned]
  simp only [object_put_none, and_assoc]
  rfl

theorem mem_owned_split (ho : s.object i = some o) {f : Nat} : f ∈ framesOf s.owned ↔
    f ∈ framesOf (o.blocksIn s.kernel.ram ++ (s.put i none).owned) := by
  obtain ⟨hi, -⟩ := List.getElem?_eq_some_iff.1 (object_eq_some.1 ho)
  have hperm := owned_put_perm hi o
  rw [put_object ho] at hperm
  rw [framesOf_perm hperm]

/-- What an object owns is owned by nobody else. -/
theorem Sound.not_mem_beside (h : s.Sound p) (ho : s.object i = some o) {f : Nat}
    (hf : f ∈ framesOf (o.blocksIn s.kernel.ram)) : f ∉ framesOf (s.put i none).owned := by
  have hholds := (h.take ho).1.holds
  rw [List.append_nil] at hholds
  exact hholds.represents.disjoint_of_append hf

/-! ## Sessions side by side -/

/-- The sessions have the same blocks, objects and MMU, and their kernels look alike. -/
structure Alike (p : FramePool) (X : Set Nat) (s s' : Session) : Prop where
  kernel : s.kernel.Alike p X s'.kernel
  mmu_eq : s'.mmu = s.mmu
  blocks_eq : s'.blocks = s.blocks
  objects_eq : s'.objects = s.objects

/-- Nothing at `X` is read by way of an object or lies in one of the blocks `C`. -/
structure Conceals (X : Set Nat) (C : Set Block) (s : Session) : Prop where
  objects : ∀ i o, s.object i = some o → Disjoint X (o.shownIn s.kernel.ram)
  blocks : ∀ b ∈ s.blocks, b ∈ C → Disjoint X (bytesOf [b])

/-- The sessions are alike but for bytes that are concealed. The client knows what the blocks `C`
hold. -/
def Twins (p : FramePool) (C : Set Block) (s s' : Session) : Prop :=
  ∃ X, s.Alike p X s' ∧ s.Conceals X C

/-- The session is sound and has a twin, and what tells them apart lies in frames that are owned. -/
structure Shadows (p : FramePool) (X : Set Nat) (C : Set Block) (s s' : Session) : Prop where
  sound : s.Sound p
  alike : s.Alike p X s'
  conceals : s.Conceals X C
  owned : X ⊆ bytesOf s.owned
  kept : ∀ b ∈ C, b ∈ s.blocks

namespace Alike

variable (h : s.Alike p X s')
include h

theorem object_eq (i : Nat) : s'.object i = s.object i := object_congr h.objects_eq i

theorem withKernel (hk : k.Alike p Y k') : (s.withKernel k).Alike p Y (s'.withKernel k') :=
  ⟨hk, h.mmu_eq, h.blocks_eq, h.objects_eq⟩

theorem put (i : Nat) (o? : Option Object) : (s.put i o?).Alike p X (s'.put i o?) :=
  ⟨h.kernel, h.mmu_eq, h.blocks_eq, congrArg (List.set · i o?) h.objects_eq⟩

theorem keep (o : Object) : (s.keep o).Alike p X (s'.keep o) :=
  ⟨h.kernel, h.mmu_eq, h.blocks_eq, congrArg (· ++ [some o]) h.objects_eq⟩

theorem withMmu (mmu : Mmu TlbBuffer) :
    Alike p X { s with mmu := mmu } { s' with mmu := mmu } :=
  ⟨h.kernel, rfl, h.blocks_eq, h.objects_eq⟩

end Alike

namespace Conceals

theorem mono {C' : Set Block} (h : s.Conceals X C) (hsub : Y ⊆ X)
    (hC : ∀ b ∈ s.blocks, b ∈ C' → b ∈ C) : s.Conceals Y C' where
  objects i o ho := (h.objects i o ho).mono_left hsub
  blocks b hb hmem := (h.blocks b hb (hC b hb hmem)).mono_left hsub

theorem union (h : s.Conceals X C) (h' : s.Conceals Y C) : s.Conceals (X ∪ Y) C where
  objects i o ho := Set.disjoint_union_left.2 ⟨h.objects i o ho, h'.objects i o ho⟩
  blocks b hb hmem := Set.disjoint_union_left.2 ⟨h.blocks b hb hmem, h'.blocks b hb hmem⟩

end Conceals

theorem Twins.mono {C' : Set Block} (h : s.Twins p C s') (hC : ∀ b ∈ C', b ∈ C) :
    s.Twins p C' s' := by
  obtain ⟨X, halike, hconceals⟩ := h
  exact ⟨X, halike, hconceals.mono subset_rfl fun b _ => hC b⟩

/-- Of what is concealed, only what is owned need be kept in mind: the rest is free. -/
theorem Twins.shadows (h : s.Twins p C s') (hs : s.Sound p) (hC : ∀ b ∈ C, b ∈ s.blocks) :
    ∃ X, s.Shadows p X C s' := by
  obtain ⟨X, halike, hconceals⟩ := h
  refine ⟨X ∩ bytesOf s.owned, hs, ?_, hconceals.mono Set.inter_subset_left fun _ _ hb => hb,
    Set.inter_subset_right, hC⟩
  refine { halike with kernel := halike.kernel.mono (fun n hn => ?_) fun n hn =>
    halike.kernel.managed n hn.1 }
  by_cases howned : n / pageSize ∈ framesOf s.owned
  · exact .inl ⟨hn, howned⟩
  · obtain ⟨hlow, hhigh⟩ := halike.kernel.managed n hn
    exact .inr (hs.holds_owned.vacant_iff.2 ⟨hlow, hhigh, howned⟩)

/-! ## What a request shows -/

theorem Sound.of_leads (h : s.Sound p) (hr : r.Permitted p s) (hl : r.Leads s s₁) :
    s₁.Sound p := by
  rcases hl with hrun | ⟨cause, hrun⟩
  · exact ((h.perform_meets hr).of_done hrun).sound
  · exact ((h.perform_meets hr).of_refused hrun).sound

theorem Sound.leaves_of_leads (h : s.Sound p) (hr : r.Permitted p s) (hl : r.Leads s s₁)
    (ho : s.object i = some o) (hi : ¬ r.Alters i) : s.Leaves i o s₁ := by
  rcases hl with hrun | ⟨cause, hrun⟩
  · exact (h.perform_leaves ho hr hi).of_done hrun
  · exact (h.perform_leaves ho hr hi).of_refused hrun

namespace Shadows

variable (h : s.Shadows p X C s')
include h

/-- What a request left alone shows what it showed. So frames may be concealed that were not owned
before. -/
theorem conceals_of_leads (hr : r.Permitted p s) (hl : r.Leads s s₁)
    (hY : ∀ n ∈ Y, n ∈ X ∨ n / pageSize ∉ framesOf s.owned)
    (hobjects : ∀ i o, s₁.object i = some o →
      s.object i = some o ∧ ¬ r.Alters i ∨ Disjoint Y (o.shownIn s₁.kernel.ram))
    (hblocks : ∀ b ∈ s₁.blocks, b ∈ C → b ∈ s.blocks) : s₁.Conceals Y C where
  objects i o ho := by
    rcases hobjects i o ho with ⟨hbefore, hi⟩ | hdisjoint
    · have hleaves := h.sound.leaves_of_leads hr hl hbefore hi
      have hgood := (h.sound.take hbefore).2
      rw [Object.shownIn_congr hleaves.same hgood]
      refine Set.disjoint_left.2 fun n hn hshown => ?_
      rcases hY n hn with hX | hout
      · exact Set.disjoint_left.1 (h.conceals.objects i o hbefore) hX hshown
      · exact hout (mem_owned.2 (.inr ⟨i, o, hbefore, Object.shownIn_subset hgood hshown⟩))
    · exact hdisjoint
  blocks b hb hC := by
    have hbefore := hblocks b hb hC
    refine Set.disjoint_left.2 fun n hn hmem => ?_
    rcases hY n hn with hX | hout
    · exact Set.disjoint_left.1 (h.conceals.blocks b hbefore hC) hX hmem
    · exact hout (mem_owned.2 (.inl ⟨b, hbefore, by simpa [bytesOf] using hmem⟩))

/-- What an object shows is the same on both sides. -/
theorem shown_eq (ho : s.object i = some o) :
    ∀ n ∈ o.shownIn s.kernel.ram, s'.kernel.ram.byte n = s.kernel.ram.byte n := by
  intro n hn
  refine h.alike.kernel.byte_eq n (fun hX => ?_) fun hvacant => ?_
  · exact Set.disjoint_left.1 (h.conceals.objects i o ho) hX hn
  · rw [h.sound.holds_owned.vacant_iff] at hvacant
    exact hvacant.2.2 (mem_owned.2 (.inr
      ⟨i, o, ho, Object.shownIn_subset (h.sound.take ho).2 hn⟩))

/-- Nothing is concealed in the object at a place that shows all it owns. -/
theorem owned_beside (hi : ∀ o, s.object i = some o → o.shownIn s.kernel.ram =
    bytesOf (o.blocksIn s.kernel.ram)) : X ⊆ bytesOf (s.put i none).owned := by
  intro n hn
  rw [mem_bytesOf, mem_owned_put_none]
  refine (mem_owned.1 (h.owned hn)).imp_right ?_
  rintro ⟨j, o, ho, hf⟩
  refine ⟨j, o, fun hj => ?_, ho, hf⟩
  subst hj
  have hdisjoint := h.conceals.objects j o ho
  rw [hi o ho] at hdisjoint
  exact Set.disjoint_left.1 hdisjoint hn hf

/-- What is concealed beside the object at a place is still owned by others when that object was all
that a request worked on. -/
theorem disjoint_of_leads (hr : r.Permitted p s) (hl : r.Leads s s₁)
    (hX : X ⊆ bytesOf (s.put i none).owned) (halters : ∀ j, j ≠ i → ¬ r.Alters j)
    (hblocks : s₁.blocks = s.blocks) (ho : s₁.object i = some o) :
    Disjoint X (bytesOf (o.blocksIn s₁.kernel.ram)) := by
  refine Set.disjoint_left.2 fun n hn hown => ?_
  refine (h.sound.of_leads hr hl).not_mem_beside ho hown ?_
  rw [mem_owned_put_none, hblocks]
  refine (mem_owned_put_none.1 (hX hn)).imp_right ?_
  rintro ⟨j, o', hj, ho', hf⟩
  have hleaves := h.sound.leaves_of_leads hr hl ho' (halters j hj)
  refine ⟨j, o', hj, hleaves.object_eq, ?_⟩
  rwa [(Object.congr hleaves.same (h.sound.take ho').2).1]

end Shadows

end Session

end SoftPaging
