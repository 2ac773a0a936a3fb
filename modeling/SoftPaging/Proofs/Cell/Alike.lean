import Mathlib
import SoftPaging.Proofs.Cell.Operations
import SoftPaging.Proofs.Pool.Alike

/-!
# Cells on kernels that look alike

A cell shows its value and no more: the bytes that the value takes up at the start of the frame, and,
where the value is another cell, what that one shows. The rest of the frame is as it was when the frame
was taken, and stays hidden. `Legible` says of a type of value how many bytes it takes up and what
can be read by way of it.

When nothing that a cell shows is hidden, the operations on it come to the same on two kernels that
look alike. A new cell adds the rest of its frame to what is hidden, and storing a value adds nothing.
-/

namespace SoftPaging

open Outcome
open Transition (Tracks ReadsAlike)

variable {p : FramePool} {X Y : Set Nat} {k k' : Kernel} {rest live : List Block} {ram ram' : Ram}
  {f : Nat}

/-- Types of value of which it is known which bytes are read by way of them. -/
class Legible (α : Type) [Stored α] [Owning α] where
  /-- The number of bytes that a value takes up where it is stored. -/
  width : Nat
  /-- The bytes that are read by way of a value. -/
  shownIn : Ram → α → Set Nat
  /-- What a value says when everything is read that it leads to. -/
  Content : Type
  contentIn : Ram → α → Content
  width_le : width ≤ pageSize
  load_congr : ∀ {ram ram' : Ram} {i : Nat},
    (∀ n ∈ Set.Ico i (i + width), ram'.byte n = ram.byte n) →
      (Stored.load ram' i : α) = Stored.load ram i
  writes_store : ∀ (i : Nat) (v : α),
    Ram.Writes (fun ram => Stored.store ram i v) (Set.Ico i (i + width))
  shownIn_subset : ∀ {ram : Ram} {v : α}, Owning.Aligned ram v →
    shownIn ram v ⊆ bytesOf (Owning.blocksIn ram v)
  congr : ∀ {ram ram' : Ram} {v : α}, (∀ n ∈ shownIn ram v, ram'.byte n = ram.byte n) →
    shownIn ram' v = shownIn ram v ∧ contentIn ram' v = contentIn ram v ∧
      Owning.blocksIn ram' v = Owning.blocksIn ram v
  tracks_release : ∀ {p : FramePool} {X : Set Nat} {k k' : Kernel} {v : α} {rest : List Block},
    k.Alike p X k' → Owning.Aligned k.ram v → k.Holds p (Owning.blocksIn k.ram v ++ rest) →
      Disjoint X (shownIn k.ram v) → (Stored.release v).Tracks (Kernel.Alike p X) k k'

namespace FrameCell

variable {α : Type} [Stored α] [Owning α] [Legible α] {c : FrameCell α} {v : α}

/-- What a value shows depends on the frames it owns. -/
theorem shownIn_eq_of_sameBlocks (hv : Owning.Aligned ram v)
    (hsame : ram.SameBlocks ram' (Owning.blocksIn ram v)) :
    Legible.shownIn ram' v = Legible.shownIn ram v :=
  (Legible.congr fun n hn => hsame _ (Legible.shownIn_subset hv hn) n rfl).1

/-- The bytes of the value of a cell. -/
def valueAt (c : FrameCell α) : Set Nat := Set.Ico c.frame.val (c.frame.val + Legible.width α)

/-- The bytes that are read by way of a cell. -/
def shownIn (ram : Ram) (c : FrameCell α) : Set Nat :=
  c.valueAt ∪ Legible.shownIn ram (Stored.load ram c.frame.val : α)

/-- What a cell says when everything is read that it leads to. -/
def contentIn (ram : Ram) (c : FrameCell α) : Legible.Content α :=
  Legible.contentIn ram (Stored.load ram c.frame.val : α)

/-- The bytes of the frame of a cell past its value. -/
def slack (c : FrameCell α) : Set Nat := {n | n / pageSize = c.frame.number.val ∧ n ∉ c.valueAt}

theorem valueAt_subset (h : c.frame.isPageAligned = true) :
    c.valueAt ⊆ {n | n / pageSize = c.frame.number.val} := by
  have hval := Address.val_eq_of_aligned h
  have hwidth := Legible.width_le (α := α)
  rintro n ⟨hlow, hhigh⟩
  show n / pageSize = _
  simp only [pageSize] at *
  omega

theorem shownIn_subset (h : c.Aligned ram) : c.shownIn ram ⊆ bytesOf (c.blocksIn ram) := by
  rintro n (hn | hn)
  · exact mem_framesOf_cons.2 (.inl (Block.mem_one.2 (valueAt_subset h.1 hn)))
  · exact mem_framesOf_cons.2 (.inr (Legible.shownIn_subset h.2 hn))

theorem load_eq_of_shown (hsame : ∀ n ∈ c.shownIn ram, ram'.byte n = ram.byte n) :
    (Stored.load ram' c.frame.val : α) = Stored.load ram c.frame.val :=
  Legible.load_congr fun n hn => hsame n (.inl hn)

/-- What a cell shows and owns is told by the bytes it shows. -/
theorem congr_of_shown (hsame : ∀ n ∈ c.shownIn ram, ram'.byte n = ram.byte n) :
    c.shownIn ram' = c.shownIn ram ∧ c.contentIn ram' = c.contentIn ram ∧
      c.blocksIn ram' = c.blocksIn ram := by
  have hload := load_eq_of_shown hsame
  have hvalue := Legible.congr (v := (Stored.load ram c.frame.val : α))
    fun n hn => hsame n (.inr hn)
  unfold shownIn contentIn blocksIn
  rw [hload]
  exact ⟨congrArg _ hvalue.1, hvalue.2.1, congrArg _ hvalue.2.2⟩

section

variable (h : k.Alike p X k') (ha : c.Aligned k.ram) (hk : k.Holds p (c.blocksIn k.ram ++ rest))
  (hX : Disjoint X (c.shownIn k.ram))
include h ha hk hX

theorem shown_eq : ∀ n ∈ c.shownIn k.ram, k'.ram.byte n = k.ram.byte n :=
  h.eq_of_shown hk (shownIn_subset ha) hX

theorem reads_read : c.read.ReadsAlike k k' := by
  unfold read
  refine (h.reads_reachFrame _).bind fun _ _ => ?_
  exact .observe (load_eq_of_shown (shown_eq h ha hk hX))

/-- The value of a cell is released alike. -/
theorem tracks_releaseValue :
    (Stored.release (Stored.load k.ram c.frame.val : α)).Tracks (Kernel.Alike p X) k k' := by
  have hvalue : k.Holds p (Owning.blocksIn k.ram (Stored.load k.ram c.frame.val : α) ++
      (⟨c.frame.number.val, 1⟩ :: rest)) := hk.perm List.perm_middle.symm
  exact Legible.tracks_release h ha.2 hvalue (hX.mono_right Set.subset_union_right)

theorem tracks_release : c.release.Tracks (Kernel.Alike p X) k k' := by
  have hvalue : k.Holds p (Owning.blocksIn k.ram (Stored.load k.ram c.frame.val : α) ++
      (⟨c.frame.number.val, 1⟩ :: rest)) := hk.perm List.perm_middle.symm
  unfold release
  refine (reads_read h ha hk hX).tracks_bind h fun v hread => ?_
  rw [run_read ha hk] at hread
  cases hread
  refine (tracks_releaseValue h ha hk hX).bind fun _ k₁ k₁' hrun h₁ => ?_
  exact h₁.freeOwned (of_exists_done (Owning.release_done ha.2 hvalue) hrun).1 _

end

/-! ## Storing a value -/

/-- Storing a value in a frame leaves the rest of the frame hidden. -/
theorem store_alike (h : k.Alike p (X ∪ bytesOf [⟨f, 1⟩]) k') (hp : p.Sound) (hf : p.reserved ≤ f)
    (hlt : f < 1048576) (v : α) :
    (k.mapRam fun ram => Stored.store ram (f * pageSize) v).Alike p
      (X ∪ slack (⟨frameAt f⟩ : FrameCell α))
      (k'.mapRam fun ram => Stored.store ram (f * pageSize) v) := by
  have hoff := Owning.sameOff_store k.ram f v
  refine h.write (Legible.writes_store _ v) (fun j hj => hoff.byte_eq j ?_) (fun n hn => ?_)
    fun n hn => h.managed n ?_
  · have hrecord := hp.record_lt hj
    omega
  · rcases hn with hn | hn
    · exact .inr (.inl hn)
    · have hframe : n / pageSize = f := by simpa [bytesOf, Block.mem_one] using hn
      by_cases hvalue : n ∈ Set.Ico (f * pageSize) (f * pageSize + Legible.width α)
      · exact .inl hvalue
      · refine .inr (.inr ⟨?_, ?_⟩)
        · rw [number_frameAt hlt, hframe]
        · unfold valueAt
          rwa [val_frameAt hlt]
  · refine hn.imp_right fun hslack => mem_framesOf_cons.2 (.inl (Block.mem_one.2 ?_))
    rw [← number_frameAt hlt]
    exact hslack.1

/-- A frame in which a value was stored shows that and what the value shows. -/
theorem shownIn_store (hv : Owning.Aligned k.ram v)
    (hk : k.Holds p (⟨f, 1⟩ :: (Owning.blocksIn k.ram v ++ rest))) :
    (⟨frameAt f⟩ : FrameCell α).shownIn (Stored.store k.ram (f * pageSize) v) =
      (⟨frameAt f⟩ : FrameCell α).valueAt ∪ Legible.shownIn k.ram v := by
  have hoff := Owning.sameOff_store k.ram f v
  have hsame : k.ram.SameBlocks (Stored.store k.ram (f * pageSize) v) (Owning.blocksIn k.ram v) :=
    fun g hg j hj => hoff.byte_eq j (hj ▸ hk.ne_of_mem (mem_framesOf_append.2 (.inl hg)))
  have hshown := shownIn_eq_of_sameBlocks hv hsame
  unfold shownIn
  rw [val_frameAt (hk.frame_lt (mem_framesOf_self _ _)), load_stored hk, hshown]

/-- A new cell shows its value. The rest of its frame is hidden. -/
theorem new_alike (h : k.Alike p X k') (hv : Owning.Aligned k.ram v)
    (hk : k.Holds p (Owning.blocksIn k.ram v ++ rest)) (hX : Disjoint X (Legible.shownIn k.ram v))
    (hout : X ⊆ bytesOf (Owning.blocksIn k.ram v ++ rest)) :
    ((new v).run k).Matches
      (fun c k₁ k₁' => k₁.Alike p (X ∪ c.slack) k₁' ∧ Disjoint X (c.shownIn k₁.ram))
      (fun _ k₁ k₁' => k₁.Alike p X k₁') ((new v).run k') := by
  have hk' := hk.alike h
  unfold new
  rw [Transition.run_bind, Transition.run_bind, Transition.run_onRefusal, Transition.run_onRefusal]
  rcases p.spare_cases (Owning.blocksIn k.ram v ++ rest) with hnone | ⟨f, hf⟩
  · have hrelease := Legible.tracks_release (h.push (.noRun 1)) hv (hk.push _) hX
    rw [hk.run_takeFrame_exhausted hnone, hk'.run_takeFrame_exhausted hnone]
    simp only [andThen_assoc, andThen_refused]
    exact hrelease.andThen fun _ _ _ _ h₁ => .refused h₁
  · have hlend := hk.lend hf
    have hmem := mem_framesOf_self f (Owning.blocksIn k.ram v ++ rest)
    have hlt := hlend.frame_lt hmem
    have hroom := hk.represents.hasRoom_iff.2 hf.1
    have hlent := h.lend hk hroom
    have hreject := hlend.rejectFrameZero hmem
    have hsame : k.ram.SameBlocks (k.lend p ⟨f, 1⟩).ram (Owning.blocksIn k.ram v) :=
      (hk.handsOut_lend hroom).same.mono fun g hg => mem_framesOf_append.2 (.inl hg)
    have hvalue := Owning.congr (v := v) hsame hv
    rw [hk.run_takeFrame hf, hk'.run_takeFrame hf]
    simp only [andThen_done, Transition.run_bind, Op.run_onRam, hreject, Transition.run_pure,
      val_frameAt hlt]
    refine .done ⟨store_alike hlent hk.sound hf.1.1 hlt v, ?_⟩
    rw [← hvalue.1] at hlend
    rw [Kernel.ram_mapRam, shownIn_store hvalue.2 hlend, shownIn_eq_of_sameBlocks hv hsame]
    refine Set.disjoint_union_right.2 ⟨Set.disjoint_left.2 fun n hn hvalueAt => ?_, hX⟩
    have hframe : n / pageSize = (frameAt f).number.val :=
      valueAt_subset (isPageAligned_frameAt hlt) hvalueAt
    rw [number_frameAt hlt] at hframe
    exact hf.1.2.2 (hframe ▸ hout hn)

section

variable (h : k.Alike p X k') (ha : c.Aligned k.ram) (hk : k.Holds p (c.blocksIn k.ram ++ rest))
  (hX : Disjoint X (c.shownIn k.ram))
include h ha hk hX

/-- Storing a value hides nothing. -/
theorem tracks_replace (v : α) : (c.replace v).Tracks (Kernel.Alike p X) k k' := by
  have hlow := number_le hk
  unfold replace
  refine (reads_read h ha hk hX).tracks_bind h fun old hread => ?_
  rw [run_read ha hk] at hread
  cases hread
  refine (tracks_releaseValue h ha hk hX).bind fun _ k₁ k₁' _ h₁ => ?_
  refine h₁.tracks_onRam (Legible.writes_store _ v) fun j hj => ?_
  have hrecord := hk.sound.record_lt hj
  rw [Address.val_eq_of_aligned ha.1]
  exact (Owning.sameOff_store k₁.ram c.frame.number.val v).byte_eq j (by omega)

end

/-- After a value was stored the cell shows that and what the value shows. -/
theorem replace_shows (ha : c.Aligned k.ram) (hv : Owning.Aligned k.ram v)
    (hk : k.Holds p (c.blocksIn k.ram ++ (Owning.blocksIn k.ram v ++ rest))) :
    ∃ k₁, (c.replace v).run k = .done () k₁ ∧
      c.shownIn k₁.ram = c.valueAt ∪ Legible.shownIn k.ram v := by
  have hold : k.Holds p (Owning.blocksIn k.ram (Stored.load k.ram c.frame.val : α) ++
      (⟨c.frame.number.val, 1⟩ :: (Owning.blocksIn k.ram v ++ rest))) :=
    hk.perm List.perm_middle.symm
  obtain ⟨k₁, hrun, hholds, htouches⟩ := Owning.release_done ha.2 hold
  have hsame : k.ram.SameBlocks k₁.ram (Owning.blocksIn k.ram v) :=
    (hold.sameBlocks htouches (Set.empty_subset _)).mono fun g hg =>
      mem_framesOf_cons.2 (.inr (mem_framesOf_append.2 (.inl hg)))
  have hvalue := Owning.congr (v := v) hsame hv
  rw [← hvalue.1] at hholds
  have hshown := shownIn_store hvalue.2 hholds
  rw [frameAt_number ha.1, shownIn_eq_of_sameBlocks hv hsame] at hshown
  refine ⟨k₁.mapRam fun ram => Stored.store ram (c.frame.number.val * pageSize) v, ?_, hshown⟩
  unfold replace
  simp only [Transition.run_bind, run_read ha hk, andThen_done, hrun, Op.run_onRam]
  rw [Address.val_eq_of_aligned ha.1]

/-- The rest of the frame of a cell is not shown by it. -/
theorem disjoint_slack (ha : c.Aligned k.ram) (hk : k.Holds p (c.blocksIn k.ram ++ rest)) :
    Disjoint c.slack (c.shownIn k.ram) := by
  refine Set.disjoint_left.2 fun n hn hshown => ?_
  rcases hshown with hvalueAt | hvalue
  · exact hn.2 hvalueAt
  · have hmem := Legible.shownIn_subset ha.2 hvalue
    rw [mem_bytesOf, hn.1] at hmem
    exact hk.ne_of_mem (mem_framesOf_append.2 (.inl hmem)) rfl

end FrameCell

/-! ## Types of value -/

instance : Legible UInt8 where
  width := 1
  shownIn _ _ := ∅
  Content := UInt8
  contentIn _ v := v
  width_le := by decide
  load_congr hsame := hsame _ ⟨le_rfl, Nat.lt_succ_self _⟩
  writes_store i v := (Ram.writes_store i v).mono fun n hn => by
    obtain ⟨hlow, hhigh⟩ := hn
    exact Nat.le_antisymm (Nat.le_of_lt_succ hhigh) hlow
  shownIn_subset _ := Set.empty_subset _
  congr _ := ⟨rfl, rfl, rfl⟩
  tracks_release h _ _ _ := .pure _ h

instance : Legible UInt32 where
  width := 4
  shownIn _ _ := ∅
  Content := UInt32
  contentIn _ v := v
  width_le := by decide
  load_congr hsame := Ram.word_congr fun n hlow hhigh => hsame n ⟨hlow, hhigh⟩
  writes_store i v := Ram.writes_storeWord i v
  shownIn_subset _ := Set.empty_subset _
  congr _ := ⟨rfl, rfl, rfl⟩
  tracks_release h _ _ _ := .pure _ h

instance : Legible Halves where
  width := 4096
  shownIn _ _ := ∅
  Content := Halves
  contentIn _ v := v
  width_le := by decide
  load_congr {ram ram' i} hsame := by
    have hhalf (j : Fin 2048) : ram'.half (i + 2 * j.val) = ram.half (i + 2 * j.val) :=
      Ram.half_congr fun n hlow hhigh => hsame n ⟨by omega, by omega⟩
    exact congrArg Vector.ofFn (funext hhalf)
  writes_store i v := by
    have hstore := Ram.Writes.foldl (fun j : Fin 2048 =>
      Ram.writes_storeHalf (i + 2 * j.val) (v.get j)) (List.finRange 2048)
    refine hstore.mono fun n hn => ?_
    obtain ⟨hlow, hhigh⟩ := hn
    refine ⟨⟨(n - i) / 2, by omega⟩, List.mem_finRange _, ?_, ?_⟩ <;> dsimp only <;> omega
  shownIn_subset _ := Set.empty_subset _
  congr _ := ⟨rfl, rfl, rfl⟩
  tracks_release h _ _ _ := .pure _ h

instance {α : Type} [Stored α] [Owning α] [Legible α] : Legible (Option (FrameCell α)) where
  width := 4
  shownIn ram
    | some c => c.shownIn ram
    | none => ∅
  Content := Option (Legible.Content α)
  contentIn ram v := v.map (FrameCell.contentIn ram)
  width_le := by decide
  load_congr {ram ram' i} hsame := by
    have hword : ram'.word i = ram.word i := Ram.word_congr fun n hlow hhigh =>
      hsame n ⟨hlow, hhigh⟩
    change (if ram'.word i = 0 then none else some _) = (if _ then _ else _)
    rw [hword]
  writes_store i v := Ram.writes_storeWord i _
  shownIn_subset {ram v} h := by
    cases v with
    | some c => exact FrameCell.shownIn_subset h
    | none => exact Set.empty_subset _
  congr {ram ram' v} hsame := by
    cases v with
    | some c =>
      obtain ⟨hshown, hcontent, hblocks⟩ := FrameCell.congr_of_shown hsame
      exact ⟨hshown, congrArg some hcontent, hblocks⟩
    | none => exact ⟨rfl, rfl, rfl⟩
  tracks_release {p X k k' v rest} h ha hk hX := by
    cases v with
    | some c => exact FrameCell.tracks_release h ha hk hX
    | none => exact .pure _ h

/-- Storing an element of an array. -/
theorem FrameCell.tracks_setElement {c : FrameCell Halves} (h : k.Alike p X k') (ha : c.Aligned k.ram)
    (hk : k.Holds p (c.blocksIn k.ram ++ rest)) (i : Nat) (w : UInt16) :
    (c.setElement i w).Tracks (Kernel.Alike p X) k k' := by
  have hlow := number_le hk
  have hval := Address.val_eq_of_aligned ha.1
  unfold setElement
  refine (h.reads_reachFrame _).tracks_bind h fun _ _ => ?_
  refine (ReadsAlike.lift _).tracks_bind h fun j _ => ?_
  refine h.tracks_onRam (Ram.writes_storeHalf _ w) fun n hn => ?_
  have hrecord := hk.sound.record_lt hn
  refine Ram.byte_storeHalf_of_disjoint k.ram w (.inl ?_)
  simp only [pageSize] at *
  omega

end SoftPaging
