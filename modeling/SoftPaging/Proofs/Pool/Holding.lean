import Mathlib
import SoftPaging.Frame.Cell
import SoftPaging.Proofs.Pool.Count
import SoftPaging.Proofs.Pool.Lending

/-!
# Holding frames

What an operation may rely on when it works on frames it owns. `Kernel.Holds k p live` is
`Kernel.Lends` on a machine that reaches all the frames it manages, so that an operation on a frame
in a live block does what it says and does not halt.

What an operation leaves alone is said by `Kernel.Touches p F k k'`: outside the frames `F` and the
records of the pool, RAM is the same before and after. The records are left out because they are
determined by the live blocks. A live frame that is not in `F` is the same byte for byte
(`Touches.sameFrame`).
-/

namespace SoftPaging

/-! ## Frames that are the same -/

/-- The bytes of frame `f` are the same. -/
def Ram.SameFrame (ram ram' : Ram) (f : Nat) : Prop :=
  ∀ j, j / pageSize = f → ram'.byte j = ram.byte j

namespace Ram.SameFrame

variable {ram ram' ram'' : Ram} {f : Nat}

theorem refl (ram : Ram) (f : Nat) : ram.SameFrame ram f := fun _ _ => rfl

theorem trans (h : ram.SameFrame ram' f) (h' : ram'.SameFrame ram'' f) : ram.SameFrame ram'' f :=
  fun j hj => (h' j hj).trans (h j hj)

theorem byte (h : ram.SameFrame ram' f) {j : Nat} (hlow : f * pageSize ≤ j)
    (hhigh : j < f * pageSize + pageSize) : ram'.byte j = ram.byte j :=
  h j (by simp only [pageSize] at *; omega)

end Ram.SameFrame

/-- The frames of the blocks are the same, byte for byte. -/
def Ram.SameBlocks (ram ram' : Ram) (bs : List Block) : Prop :=
  ∀ f ∈ framesOf bs, ram.SameFrame ram' f

theorem Ram.SameBlocks.refl (ram : Ram) (bs : List Block) : ram.SameBlocks ram bs :=
  fun f _ => SameFrame.refl ram f

theorem Ram.SameBlocks.trans {ram ram' ram'' : Ram} {bs : List Block} (h : ram.SameBlocks ram' bs)
    (h' : ram'.SameBlocks ram'' bs) : ram.SameBlocks ram'' bs :=
  fun f hf => (h f hf).trans (h' f hf)

theorem Ram.SameBlocks.mono {ram ram' : Ram} {bs bs' : List Block} (h : ram.SameBlocks ram' bs)
    (hsub : ∀ f ∈ framesOf bs', f ∈ framesOf bs) : ram.SameBlocks ram' bs' :=
  fun f hf => h f (hsub f hf)

/-- Outside frame `f` the bytes are the same. -/
structure Ram.SameOff (ram ram' : Ram) (f : Nat) : Prop where
  size_eq : ram'.size = ram.size
  byte_eq : ∀ j, j / pageSize ≠ f → ram'.byte j = ram.byte j

namespace Ram

theorem sameOff_fill (ram : Ram) (f : Nat) (v : UInt8) :
    ram.SameOff (ram.fill (f * pageSize) pageSize v) f where
  size_eq := size_fill _ _ _ _
  byte_eq j hj := by
    rw [byte_fill, if_neg]
    simp only [pageSize] at *
    omega

theorem sameOff_storeWord (ram : Ram) {f i : Nat} (w : UInt32) (hlow : f * pageSize ≤ i)
    (hhigh : i + 4 ≤ f * pageSize + pageSize) : ram.SameOff (ram.storeWord i w) f where
  size_eq := size_storeWord _ _ _
  byte_eq j hj := byte_storeWord_of_disjoint ram w (by simp only [pageSize] at *; omega)

end Ram

namespace FramePool

/-- Where the record of a frame lies. -/
def IsRecord (p : FramePool) (j : Nat) : Prop :=
  p.records.val ≤ j ∧ j < p.records.val + p.total

theorem Sound.record_lt {p : FramePool} (h : p.Sound) {j : Nat} (hj : p.IsRecord j) :
    j / pageSize < p.reserved := by
  have := h.records_le
  unfold IsRecord at hj
  simp only [pageSize] at *
  omega

/-- The frames that may be handed out next. -/
def spare (p : FramePool) (live : List Block) : Set Nat :=
  {i | p.reserved ≤ i ∧ i < p.total ∧ i ∉ framesOf live}

theorem mem_spare {p : FramePool} {live : List Block} {i : Nat} :
    i ∈ p.spare live ↔ p.reserved ≤ i ∧ i < p.total ∧ i ∉ framesOf live := Iff.rfl

theorem spare_perm (p : FramePool) {live live' : List Block} (h : live.Perm live') :
    p.spare live = p.spare live' := by
  unfold spare
  rw [framesOf_perm h]

/-- What is spare next to more blocks is spare next to fewer. -/
theorem spare_subset (p : FramePool) {live live' : List Block}
    (h : ∀ i ∈ framesOf live, i ∈ framesOf live') : p.spare live' ⊆ p.spare live := by
  rintro i ⟨hlow, hhigh, hout⟩
  exact ⟨hlow, hhigh, fun hi => hout (h i hi)⟩

/-- A frame that is handed out is not spare any more. -/
theorem spare_cons (p : FramePool) (f : Nat) (live : List Block) :
    p.spare (⟨f, 1⟩ :: live) = p.spare live \ {f} := by
  ext i
  rw [Set.mem_sdiff, Set.mem_singleton_iff, mem_spare, mem_spare, mem_framesOf_cons, Block.mem_one]
  tauto

/-- Some frame is the lowest spare one, unless none is left. -/
theorem spare_cases (p : FramePool) (live : List Block) :
    p.spare live = ∅ ∨ ∃ f, IsLeast (p.spare live) f := by
  rcases (p.spare live).eq_empty_or_nonempty with hnone | hsome
  · exact .inl hnone
  · exact .inr ⟨sInf (p.spare live), Nat.sInf_mem hsome, fun _ hi => Nat.sInf_le hi⟩

/-- When no frame is spare, the pool counts none as free. -/
theorem Represents.freeFrames_of_full {p : FramePool} {ram : Ram} {live : List Block}
    (h : p.Represents ram live) (hnone : p.spare live = ∅) : p.freeFrames ram = 0 := by
  rw [freeFrames, countFrom_eq, Nat.zero_add, List.countP_eq_zero]
  intro i hi hfree
  have hlt : i < p.total := by
    rw [List.mem_range'_1] at hi
    omega
  have hout := mt (h.allocated_iff i hlt).2 (by simpa using hfree)
  have hspare : i ∈ p.spare live := ⟨by omega, hlt, fun hmem => hout (.inr hmem)⟩
  rw [hnone] at hspare
  exact hspare

end FramePool

namespace Kernel

variable {p : FramePool} {F G : Set Nat} {k k' k'' : Kernel} {live : List Block}

/-! ## What is left alone -/

/-- RAM may have changed in the frames `F` and in the records, and nowhere else; the direct map and
the size of RAM are what they were. -/
structure Touches (p : FramePool) (F : Set Nat) (k k' : Kernel) : Prop where
  directMap_eq : k'.directMap? = k.directMap?
  size_eq : k'.ram.size = k.ram.size
  byte_eq : ∀ j, j / pageSize ∉ F → ¬ p.IsRecord j → k'.ram.byte j = k.ram.byte j

namespace Touches

theorem refl (p : FramePool) (F : Set Nat) (k : Kernel) : k.Touches p F k :=
  ⟨rfl, rfl, fun _ _ _ => rfl⟩

theorem trans (h : Touches p F k k') (h' : Touches p F k' k'') : Touches p F k k'' where
  directMap_eq := h'.directMap_eq.trans h.directMap_eq
  size_eq := h'.size_eq.trans h.size_eq
  byte_eq j hF hrecord := (h'.byte_eq j hF hrecord).trans (h.byte_eq j hF hrecord)

theorem mono (h : Touches p F k k') (hsub : F ⊆ G) : Touches p G k k' :=
  ⟨h.directMap_eq, h.size_eq, fun j hG => h.byte_eq j fun hF => hG (hsub hF)⟩

theorem sameFrame (h : Touches p F k k') (hp : p.Sound) {f : Nat} (hf : p.reserved ≤ f)
    (hF : f ∉ F) : k.ram.SameFrame k'.ram f := by
  rintro j rfl
  exact h.byte_eq j hF fun hrecord => absurd (hp.record_lt hrecord) (Nat.not_lt.2 hf)

theorem push (p : FramePool) (F : Set Nat) (k : Kernel) (e : Event) : Touches p F k (k.push e) :=
  ⟨rfl, rfl, fun _ _ _ => rfl⟩

theorem mapRam (k : Kernel) {g : Ram → Ram} {f : Nat} (h : k.ram.SameOff (g k.ram) f)
    (hf : f ∈ F) : Touches p F k (k.mapRam g) where
  directMap_eq := rfl
  size_eq := h.size_eq
  byte_eq j hF _ := h.byte_eq j fun hj => hF (hj ▸ hf)

end Touches

/-! ## The invariant of a machine -/

/-- The blocks `live` are what the pool has handed out, and all managed frames lie in RAM and are
reached by the direct map. -/
structure Holds (k : Kernel) (p : FramePool) (live : List Block) : Prop extends
    k.Lends p live where
  covers : k.Covers (p.total * pageSize)
  ram_ge : p.total * pageSize ≤ k.ram.size

namespace Holds

variable {b : Block} {f : Nat}

theorem perm (h : k.Holds p live) {live' : List Block} (hperm : live.Perm live') :
    k.Holds p live' := ⟨h.toLends.perm hperm, h.covers, h.ram_ge⟩

/-- What was lent stays lent when the kernel lends it still and nothing was installed. -/
theorem of_touches (h : k.Holds p live) {live' : List Block} (hlends : k'.Lends p live')
    (htouches : Touches p F k k') : k'.Holds p live' :=
  ⟨hlends, h.covers.congr htouches.directMap_eq, by rw [htouches.size_eq]; exact h.ram_ge⟩

theorem push (h : k.Holds p live) (e : Event) : (k.push e).Holds p live :=
  ⟨h.toLends.push e, h.covers, h.ram_ge⟩

theorem frame_bounds (h : k.Holds p live) (hf : f ∈ framesOf live) :
    p.reserved ≤ f ∧ f < p.total := h.represents.frame_bounds hf

theorem frame_pos (h : k.Holds p live) (hf : f ∈ framesOf live) : 0 < f :=
  Nat.lt_of_lt_of_le h.sound.reserved_pos (h.frame_bounds hf).1

theorem frame_lt (h : k.Holds p live) (hf : f ∈ framesOf live) : f < 1048576 :=
  h.sound.frame_lt (h.frame_bounds hf).2

/-- A frame that is owned on its own is in no other block. -/
theorem ne_of_mem {g : Nat} (h : k.Holds p (⟨f, 1⟩ :: live)) (hg : g ∈ framesOf live) : g ≠ f := by
  rintro rfl
  have happend : p.Represents k.ram ([⟨g, 1⟩] ++ live) := h.represents
  exact happend.disjoint_of_append (mem_framesOf_self g []) hg

/-- A live frame lies inside RAM. -/
theorem frame_le (h : k.Holds p live) (hf : f ∈ framesOf live) :
    f * pageSize + pageSize ≤ k.ram.size :=
  calc f * pageSize + pageSize = (f + 1) * pageSize := (Nat.succ_mul f pageSize).symm
    _ ≤ p.total * pageSize := Nat.mul_le_mul_right pageSize (h.frame_bounds hf).2
    _ ≤ k.ram.size := h.ram_ge

theorem run_reachFrame (h : k.Holds p live) (hf : f ∈ framesOf live) :
    (Op.reachFrame (frameAt f)).run k = .done () k := by
  have hle := h.frame_bounds hf
  refine Op.run_reachFrame_of_covers h.covers ?_
  rw [val_frameAt (h.frame_lt hf)]
  simp only [pageSize]
  omega

/-- No live frame is frame zero. -/
theorem rejectFrameZero (h : k.Holds p live) (hf : f ∈ framesOf live) :
    Op.rejectFrameZero (frameAt f) = pure () := by
  have hpos := h.frame_pos hf
  unfold Op.rejectFrameZero
  rw [val_frameAt (h.frame_lt hf), bne_iff_ne.2 (by simp only [pageSize]; omega)]
  rfl

/-- Writing to frames that are owned, or spare, leaves those of the others alone. -/
theorem sameBlocks {own rest : List Block} (hk : k.Holds p (own ++ rest))
    (h : Touches p F k k') (hF : F ⊆ framesOf own ∪ p.spare (own ++ rest)) :
    k.ram.SameBlocks k'.ram rest := by
  intro f hf
  have hlive : f ∈ framesOf (own ++ rest) := mem_framesOf_append.2 (.inr hf)
  refine h.sameFrame hk.sound (hk.frame_bounds hlive).1 fun hmem => ?_
  rcases hF hmem with hown | hspare
  · exact hk.represents.disjoint_of_append hown hf
  · exact hspare.2.2 hlive

/-- Writing to spare frames leaves all the others alone. -/
theorem sameBlocks_of_spare (hk : k.Holds p live) (h : Touches p (p.spare live) k k') :
    k.ram.SameBlocks k'.ram live := by
  have hnothing : k.Holds p ([] ++ live) := hk
  exact hnothing.sameBlocks h Set.subset_union_right

/-- Writing to a live frame, or to a spare one, changes nothing that is lent. -/
theorem mapRam (h : k.Holds p live) {g : Ram → Ram} (hoff : k.ram.SameOff (g k.ram) f)
    (hf : p.reserved ≤ f) : (k.mapRam g).Holds p live := by
  refine h.of_touches (h.toLends.mapRam hoff.size_eq fun j hj => hoff.byte_eq j ?_)
    (Touches.mapRam k hoff (Set.mem_singleton f))
  simp only [pageSize] at hj ⊢
  omega

end Holds

end Kernel

/-! ## One frame at a time -/

namespace FramePool

variable {p : FramePool} {ram : Ram} {live : List Block} {f : Nat}

theorem Represents.hasRoom_iff (h : p.Represents ram live) :
    p.HasRoom ram ⟨f, 1⟩ ↔ f ∈ p.spare live := by
  rw [hasRoom_one, mem_spare]
  constructor
  · rintro ⟨hlow, hhigh, hfree⟩
    exact ⟨hlow, hhigh, ((h.isFree_iff hhigh).1 hfree).2⟩
  · rintro ⟨hlow, hhigh, hout⟩
    exact ⟨hlow, hhigh, (h.isFree_iff hhigh).2 ⟨hlow, hout⟩⟩

theorem Represents.find_one_eq_some (h : p.Represents ram live) (hf : IsLeast (p.spare live) f) :
    p.find ram 1 = .ok (some f) := by
  have hfit := firstFree?_firstFit p ram
  rw [find_one]
  cases hfind : p.firstFree? ram with
  | none =>
    rw [hfind] at hfit
    exact absurd (h.hasRoom_iff.2 hf.1) (hfit f)
  | some g =>
    rw [hfind] at hfit
    have hfg : f ≤ g := hf.2 (h.hasRoom_iff.1 hfit.1)
    have hgf : ¬ f < g := fun hlt => hfit.2 f hlt (h.hasRoom_iff.2 hf.1)
    rw [show g = f by omega]

theorem Represents.find_one_eq_none (h : p.Represents ram live) (hnone : p.spare live = ∅) :
    p.find ram 1 = .ok none := by
  have hfit := firstFree?_firstFit p ram
  rw [find_one]
  cases hfind : p.firstFree? ram with
  | none => rfl
  | some g =>
    rw [hfind] at hfit
    have hg := h.hasRoom_iff.1 hfit.1
    rw [hnone] at hg
    exact hg.elim

end FramePool

namespace Kernel

variable {p : FramePool} {F : Set Nat} {k : Kernel} {live : List Block} {f : Nat} {b : Block}

theorem Touches.lend (p : FramePool) (F : Set Nat) (k : Kernel) (hb : b.past ≤ p.total) :
    Touches p F k (k.lend p b) where
  directMap_eq := rfl
  size_eq := FramePool.size_takeRun _ _ _ _
  byte_eq j _ hrecord := by
    unfold FramePool.IsRecord at hrecord
    unfold Block.past at hb
    exact FramePool.byte_takeRun_of_not_record p k.ram (by omega)

theorem Touches.takeBack (h : k.Lends p (b :: live)) (F : Set Nat) :
    Touches p F k (k.takeBack p b) where
  directMap_eq := rfl
  size_eq := FramePool.size_clearRun _ _ _ _
  byte_eq j _ hrecord := by
    have hpast := (h.represents.within b List.mem_cons_self).2.2
    unfold FramePool.IsRecord at hrecord
    unfold Block.past at hpast
    have hlength := h.represents.runLength_eq List.mem_cons_self
    refine FramePool.byte_clearRun_of_not_record p k.ram ?_
    rw [hlength]
    omega

/-- The kernel after frame `f` was taken and filled with zeros. -/
def lendCleared (k : Kernel) (p : FramePool) (f : Nat) : Kernel :=
  (k.lend p ⟨f, 1⟩).mapRam (·.fill (f * pageSize) pageSize 0)

theorem Touches.lendCleared (p : FramePool) (k : Kernel) (hf : f < p.total) (hF : f ∈ F) :
    Touches p F k (k.lendCleared p f) :=
  (Touches.lend p F k (b := ⟨f, 1⟩) hf).trans (Touches.mapRam _ (Ram.sameOff_fill _ f 0) hF)

namespace Holds

/-- The lowest spare frame, once lent. -/
theorem lend (h : k.Holds p live) (hf : IsLeast (p.spare live) f) :
    (k.lend p ⟨f, 1⟩).Holds p (⟨f, 1⟩ :: live) :=
  h.of_touches (h.toLends.lend (h.represents.hasRoom_iff.2 hf.1))
    (Touches.lend p ∅ k (b := ⟨f, 1⟩) hf.1.2.1)

theorem lendCleared (h : k.Holds p live) (hf : IsLeast (p.spare live) f) :
    (k.lendCleared p f).Holds p (⟨f, 1⟩ :: live) :=
  (h.lend hf).mapRam (Ram.sameOff_fill _ f 0) hf.1.1

theorem byte_lendCleared (h : k.Holds p live) (hf : IsLeast (p.spare live) f) {j : Nat}
    (hj : j / pageSize = f) : (k.lendCleared p f).ram.byte j = 0 := by
  have hle := (h.lend hf).frame_le (mem_framesOf_self f live)
  unfold Kernel.lendCleared
  rw [ram_mapRam, Ram.byte_fill, if_pos]
  simp only [pageSize] at *
  omega

theorem takeBack (h : k.Holds p (b :: live)) : (k.takeBack p b).Holds p live :=
  h.of_touches h.toLends.takeBack (Touches.takeBack h.toLends ∅)

theorem run_allocate (h : k.Holds p live) (hf : IsLeast (p.spare live) f) :
    (Op.allocate 1).run k = .done (frameAt f) (k.lend p ⟨f, 1⟩) := by
  rw [SoftPaging.run_allocate h.toHosts Nat.one_pos, h.represents.find_one_eq_some hf]

theorem run_allocate_exhausted (h : k.Holds p live) (hnone : p.spare live = ∅) :
    (Op.allocate 1).run k = .refused .outOfMemory (k.push (.noRun 1)) := by
  rw [SoftPaging.run_allocate h.toHosts Nat.one_pos, h.represents.find_one_eq_none hnone]

theorem run_takeFrame (h : k.Holds p live) (hf : IsLeast (p.spare live) f) :
    Op.takeFrame.run k = .done (frameAt f) (k.lend p ⟨f, 1⟩) := by
  have hreach := (h.lend hf).run_reachFrame (mem_framesOf_self f live)
  simp [Op.takeFrame, h.run_allocate hf, hreach]

theorem run_takeFrame_exhausted (h : k.Holds p live) (hnone : p.spare live = ∅) :
    Op.takeFrame.run k = .refused .outOfMemory (k.push (.noRun 1)) := by
  simp [Op.takeFrame, h.run_allocate_exhausted hnone]

theorem run_allocateCleared (h : k.Holds p live) (hf : IsLeast (p.spare live) f) :
    (Op.allocateCleared 1).run k = .done (frameAt f) (k.lendCleared p f) := by
  have hmem := mem_framesOf_self f live
  have hreach := (h.lend hf).run_reachFrame hmem
  simp [Op.allocateCleared, h.run_allocate hf, hreach, Kernel.lendCleared,
    val_frameAt ((h.lend hf).frame_lt hmem)]

theorem run_allocateCleared_exhausted (h : k.Holds p live) (hnone : p.spare live = ∅) :
    (Op.allocateCleared 1).run k = .refused .outOfMemory (k.push (.noRun 1)) := by
  simp [Op.allocateCleared, h.run_allocate_exhausted hnone]

theorem run_freeOwned (h : k.Holds p (b :: live)) :
    (Op.freeOwned (frameAt b.first)).run k = .done () (k.takeBack p b) :=
  h.toLends.run_freeOwned

end Holds

end Kernel

end SoftPaging
