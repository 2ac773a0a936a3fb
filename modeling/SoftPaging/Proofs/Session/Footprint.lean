import Mathlib
import SoftPaging.Proofs.Session.Duplication
import SoftPaging.Proofs.Session.Writing

/-!
# The footprint of a request

A request modifies one object at most (`Request.target?`), and makes one at most. It writes to the
cells and tables of the object that it modifies, to frames that were free, and to the records of the
frames that it hands out or takes back, whether it is granted or refused (`runs_footprint`). All other
bytes of RAM are what they were: those of the kernel below the records, those of the blocks of the
client, those of the pages of all tables, and those of all other cells and tables.

The bytes that a program stores itself are another matter (`Request.Stores`).
-/

namespace SoftPaging

open Outcome

/-- The object that a request modifies or gives back. A request that makes an object from another one
does not modify the other one. -/
def Request.target? : Request → Option Nat
  | setCell i _ | setElement i _ _ | setNested i _ => some i
  | openSlot i _ | closeSlot i _ | mapPage i _ _ _ | writeProtect i _ | copyTable _ i => some i
  | addRegion i _ _ _ | beginLoad i | endLoad i => some i
  | fault i? _ _ => i?
  | tearDown i | destroy i | release i => some i
  | _ => none

/-- The client writes a byte to memory itself, by a physical address or through a page table. -/
def Request.Stores : Request → Prop
  | poke _ _ | store _ _ _ => True
  | _ => False

namespace Session

variable {p : FramePool} {s s' s₀ : Session} {i j : Nat} {o : Object} {t : PageTable} {F : Set Nat}
  {trace : List (Request × Bool)}

/-! ## Requests for frames -/

theorem Sound.confines_op_lend (h : s.Sound p) {count : Nat} {x : Op PhysicalAddress}
    {H : Halt → Prop}
    (hx : (x.run s.kernel).Meets (fun a k => s.kernel.HandsOut p s.owned count a k)
      (fun _ k => ∃ e, k = s.kernel.push e) H) :
    s.Confines p F ((op x >>= lend count).run s) := by
  rw [Transition.run_bind]
  refine Outcome.Meets.andThen (op_meets (hx.mono ?_ ?_ fun _ _ => trivial))
  · intro a k hout
    exact h.confines_lend hout
  · rintro _ _ ⟨e, rfl⟩
    exact ⟨Kernel.Touches.push p _ s.kernel e, .inl rfl⟩

theorem Sound.confines_allocatePages (h : s.Sound p) (count : Nat) :
    s.Confines p F ((perform (.allocatePages count)).run s) := by
  rcases h.allocatePages_cases count with ⟨a, k, hout, hrun⟩ | ⟨k, -, -, htouches, hrun⟩ |
    ⟨cause, -, hrun⟩
  · rw [hrun]
    exact h.confines_lend hout
  · rw [hrun]
    exact .done ⟨htouches.mono (Set.empty_subset _), .inl rfl⟩
  · rw [hrun]
    exact .halted trivial

theorem Sound.confines_free (h : s.Sound p) (a : PhysicalAddress) :
    s.Confines p F ((perform (.free a)).run s) := by
  unfold perform
  refine Transition.Meets.bind (P := fun _ s' => ∃ k, s' = s.withKernel k ∧
    s.kernel.TakesBack p s.owned a k) (Transition.Meets.discard (op_meets
      ((h.holds_owned.free_meets a).mono ?_ ?_ fun _ _ => trivial))) ?_
  · exact fun _ k htook => ⟨k, rfl, htook⟩
  · rintro _ _ rfl
    exact ⟨Kernel.Touches.refl p _ s.kernel, .inl rfl⟩
  · rintro _ _ ⟨k, rfl, htook⟩
    exact h.confines_giveBack htook

theorem Sound.confines_mustFree (h : s.Sound p) (a : PhysicalAddress) :
    s.Confines p F ((perform (.mustFree a)).run s) := by
  unfold perform
  rw [Transition.run_bind]
  refine Outcome.Meets.andThen (op_meets
    ((h.holds_owned.freeOwned_meets a).mono ?_ (fun _ _ hfalse => hfalse.elim) fun _ _ => trivial))
  intro _ k htook
  exact h.confines_giveBack htook

theorem Sound.confines_freePages (h : s.Sound p) (v : KernelAddress) :
    s.Confines p F ((perform (.freePages v)).run s) := by
  rcases h.freePages_cases v with ⟨m, a, k, -, -, htook, hrun⟩ | ⟨cause, hrun⟩
  · rw [hrun]
    exact h.confines_giveBack htook
  · rw [hrun]
    exact .halted trivial

/-! ## Requests for cells -/

variable {kind : CellKind} {c : FrameCell kind.Value}

/-- The frame of a cell is among those of its object. -/
theorem frame_mem_skeletonAt (ho : s.object i = some (.cell kind c)) :
    c.frame.number.val ∈ s.skeletonAt (some i) := by
  rw [skeletonAt_some ho]
  exact mem_framesOf_self _ _

/-- Making a cell writes to its frame, which was spare. -/
theorem confines_new {s₁ : Session} {v : kind.Value} {rest : List Block}
    (hkernel : s₁.kernel = s.kernel) (hblocks : s₁.blocks = s.blocks)
    (hv : Owning.Aligned s.kernel.ram v)
    (hk : s.kernel.Holds p (Owning.blocksIn s.kernel.ram v ++ rest))
    (hperm : (Owning.blocksIn s.kernel.ram v ++ rest).Perm s.owned) :
    s.Confines p F ((make (Object.cell kind) (FrameCell.new v)).run s₁) := by
  apply confines_make _ hkernel hblocks
  refine (FrameCell.new_owned hv hk).mono ?_ ?_ fun _ _ => trivial
  · rintro c k ⟨howned, hspare⟩
    rw [p.spare_perm hperm] at hspare
    exact howned.touches.mono (Set.singleton_subset_iff.2 hspare)
  · rintro cause k ⟨-, -, htouches, -⟩
    exact htouches.mono (Set.empty_subset _)

theorem Sound.confines_newCell (h : s.Sound p) (kind : CellKind) (d : Datum) :
    s.Confines p F ((perform (.newCell kind d)).run s) := by
  rw [run_newCell]
  cases hv : d.value? kind with
  | none => exact confines_idle
  | some v =>
    obtain ⟨haligned, hholds⟩ := holds_datum hv [] h.holds_owned
    refine confines_new rfl rfl haligned hholds ?_
    rw [(Datum.owns_nothing hv s.kernel.ram).1]
    exact .rfl

theorem Sound.confines_nest (h : s.Sound p) : s.Confines p F ((perform (.nest j)).run s) := by
  refine confines_consume fun o act ho hact => ?_
  cases o with
  | table t => cases hact
  | space sp => cases hact
  | cell kind c =>
    obtain rfl := Option.some.inj hact
    obtain ⟨hgood, hholds⟩ := h.take_cell ho
    exact confines_new (v := CellKind.wrap c) rfl rfl hgood hholds
      (owned_object_perm ho)

/-- Storing in a cell writes to its frame. -/
theorem confines_store {s₁ : Session} {x : Op Unit} (ho : s.object i = some (.cell kind c))
    (hkernel : s₁.kernel = s.kernel) (hblocks : s₁.blocks = s.blocks)
    (hx : s.kernel.Confines p {c.frame.number.val} (x.run s.kernel)) :
    s.Confines p (s.skeletonAt (some i)) ((op x).run s₁) := by
  have hsub : {c.frame.number.val} ⊆ s.skeletonAt (some i) ∪ p.spare s.owned :=
    Set.singleton_subset_iff.2 (.inl (frame_mem_skeletonAt ho))
  exact confines_op hkernel hblocks (hx.mono (fun _ _ h => h.mono hsub) (fun _ _ h => h.mono hsub)
    fun _ hH => hH)

theorem Sound.confines_setCell (h : s.Sound p) (d : Datum) :
    s.Confines p (s.skeletonAt (some i)) ((perform (.setCell i d)).run s) := by
  rcases run_setCell_cases s i d with hrun | ⟨kind, c, v, ho, hv, hrun⟩
  · rw [hrun s rfl]
    exact confines_idle
  · obtain ⟨k', hreplace, howned⟩ := h.replace_beside ho hv
    rw [hrun s rfl]
    refine confines_store ho rfl rfl ?_
    rw [hreplace]
    exact .done howned.touches

theorem Sound.confines_setElement (h : s.Sound p) (index : Nat) (w : UInt16) :
    s.Confines p (s.skeletonAt (some i)) ((perform (.setElement i index w)).run s) := by
  rcases run_setElement_cases s i index w with hrun | ⟨c, ho, hrun⟩
  · rw [hrun s rfl]
    exact confines_idle
  · rw [hrun s rfl]
    exact confines_store ho rfl rfl ((h.setElement_beside ho index w).mono
      (fun _ _ howned => howned.touches) (fun _ _ hfalse => hfalse.elim) fun _ _ => trivial)

theorem Sound.confines_setNested (h : s.Sound p) (inner : Nat) :
    s.Confines p (s.skeletonAt (some i)) ((perform (.setNested i inner)).run s) := by
  rcases run_setNested_cases s i inner with ⟨-, hrun⟩ | ⟨kind, c, ho, hrun⟩
  · rw [hrun s rfl]
    exact confines_idle
  · rw [hrun s rfl]
    refine confines_consume fun o act ho' hact => ?_
    obtain ⟨c', hc, rfl⟩ := Option.map_eq_some_iff.1 hact
    rw [Object.cell?_eq_some hc] at ho'
    obtain ⟨-, k', hreplace, howned⟩ := h.replace_nested_beside ho ho'
    refine confines_store ho rfl rfl ?_
    rw [hreplace]
    exact .done howned.touches

/-! ## Requests for page tables -/

theorem Sound.confines_newTable (h : s.Sound p) : s.Confines p F ((perform .newTable).run s) := by
  refine confines_make _ rfl rfl ((PageTable.create_meets h.holds_owned).mono ?_ ?_ fun _ _ => trivial)
  · rintro t k ⟨-, -, htouches⟩
    exact htouches
  · rintro cause _ ⟨-, rfl, -⟩
    exact Kernel.Touches.push p _ s.kernel _

theorem Sound.confines_openSlot (h : s.Sound p) (slot : Nat) :
    s.Confines p (s.skeletonAt (some i)) ((perform (.openSlot i slot)).run s) := by
  refine h.confines_onTable fun t m rest hheld => Transition.Meets.discard
    ((hheld.openSlot_becomes slot).mono (fun _ _ hb => hb.2) ?_ fun _ _ => trivial)
  rintro _ _ ⟨-, rfl⟩
  exact Kernel.Touches.push p _ s.kernel _

theorem Sound.confines_closeSlot (h : s.Sound p) (slot : Nat) :
    s.Confines p (s.skeletonAt (some i)) ((perform (.closeSlot i slot)).run s) :=
  h.confines_onTable fun _ _ _ hheld => (hheld.closeSlot_becomes slot).mono (fun _ _ hb => hb.2)
    (fun _ _ hfalse => hfalse.elim) fun _ _ => trivial

theorem Sound.confines_mapPage (h : s.Sound p) (slot entry : Nat) (writable : Bool) :
    s.Confines p (s.skeletonAt (some i)) ((perform (.mapPage i slot entry writable)).run s) := by
  refine h.confines_onTable fun t m rest hheld => Transition.Meets.discard
    ((hheld.mapPage_becomes slot entry writable).mono (fun _ _ hb => hb.2) ?_ fun _ _ => trivial)
  rintro _ _ ⟨-, rfl⟩
  exact Kernel.Touches.push p _ s.kernel _

theorem Sound.confines_writeProtect (h : s.Sound p) (a : VirtualAddress) :
    s.Confines p (s.skeletonAt (some i)) ((perform (.writeProtect i a)).run s) := by
  refine h.confines_onTable fun t m rest hheld => Transition.Meets.discard ?_
  obtain ⟨k', hrun, -, htouches⟩ := hheld.writeProtect_becomes a
  rw [hrun]
  exact .done htouches

/-- Copying into a table writes to the tables of the target only, also when memory runs out. -/
theorem Sound.confines_copyTable (h : s.Sound p) (target : Nat) :
    s.Confines p (s.skeletonAt (some target)) ((perform (.copyTable i target)).run s) := by
  by_cases hsame : i = target
  · subst hsame
    rw [run_copyTable_self]
    exact confines_idle
  rw [run_copyTable hsame]
  cases htable : (s.object i).bind Object.table? with
  | none => exact confines_idle
  | some t =>
    obtain ⟨o, ho, ht⟩ := Option.bind_eq_some_iff.1 htable
    change s.Confines p _ ((onTable target t.copyTo).run s)
    rw [run_onTable]
    cases htarget : (s.object target).bind Object.table? with
    | none => exact confines_idle
    | some u =>
      obtain ⟨o', ho', hu⟩ := Option.bind_eq_some_iff.1 htarget
      have hheld := h.held_beside (Ne.symm hsame) ho ht ho' hu
      have hshows := (h.take ho).2.shows ht
      have hperm := (source_perm (Ne.symm hsame) ho ht).append_left (u.blocks (u.mapIn s.kernel.ram))
      apply confines_op rfl rfl
      rw [frames_eq ho' hu, ← p.spare_perm hperm]
      exact (PageTable.copyTo_becomes hheld hshows).mono (fun _ _ hb => hb.2)
        (fun _ _ hb => hb.2.2) fun _ _ => trivial

/-! ## Requests for address spaces -/

theorem Sound.confines_newSpace (h : s.Sound p) : s.Confines p F ((perform .newSpace).run s) := by
  refine confines_make _ rfl rfl
    ((AddressSpace.create_meets h.holds_owned).mono ?_ ?_ fun _ _ => trivial)
  · rintro sp k ⟨-, -, -, -, htouches⟩
    exact htouches
  · rintro cause _ ⟨-, rfl, -⟩
    exact Kernel.Touches.push p _ s.kernel _

theorem Sound.confines_addRegion (h : s.Sound p) (start : VirtualAddress) (size : Nat)
    (permissions : Permissions) :
    s.Confines p (s.skeletonAt (some i)) ((perform (.addRegion i start size permissions)).run s) := by
  refine h.confines_onSpace fun sp m rest hsound _ => Transition.Meets.bind
    (P := fun _ k => Kernel.Touches p (sp.table.skeleton m ∪ p.spare (sp.table.blocks m ++ rest))
      s.kernel k) ((hsound.addRegion start size permissions s.kernel).mono ?_ ?_ fun _ _ => trivial)
        fun _ _ htouches => .done htouches
  · rintro _ _ ⟨-, -, -, e, rfl⟩
    exact Kernel.Touches.push p _ s.kernel e
  · rintro _ _ ⟨-, ⟨e, rfl⟩, -⟩
    exact Kernel.Touches.push p _ s.kernel e

theorem Sound.confines_endLoad (h : s.Sound p) :
    s.Confines p (s.skeletonAt (some i)) ((perform (.endLoad i)).run s) := by
  refine h.confines_onSpace fun sp m rest hsound hheld => ?_
  obtain ⟨k', hrun, -, -, htouches⟩ := AddressSpace.endLoad_done hsound hheld s.mmu
  rw [hrun]
  exact .done (htouches.mono Set.subset_union_left)

theorem Sound.confines_fault (h : s.Sound p) (j? : Option Nat) (code : Nat) (a : VirtualAddress) :
    s.Confines p (s.skeletonAt j?) ((perform (.fault j? code a)).run s) := by
  cases j? with
  | none =>
    have hrun : (perform (.fault none code a)).run s =
        ((op (serviceFault none code a s.mmu)).run s).andThen fun mmu s' =>
          .done () { s' with mmu := mmu } := rfl
    rw [hrun]
    refine Outcome.Meets.andThen (op_meets ((serviceFault_none code a s.mmu).mono
      (fun _ _ hfalse => hfalse.elim) ?_ fun _ _ => trivial))
    intro _ k hlogs
    exact ⟨hlogs.touches _, .inl rfl⟩
  | some j =>
    refine h.confines_onSpace fun sp m rest hsound hheld => Transition.Meets.bind
      (P := fun _ k => sp.table.Confined p m rest s.kernel k)
      ((serviceFault_meets hsound hheld code a s.mmu).mono ?_ ?_ fun _ _ => trivial)
        fun _ _ htouches => .done htouches
    · rintro _ _ ⟨_, _, -, hmaps, -⟩
      exact hmaps.confined
    · intro _ _ hrefused
      exact hrefused.touches.mono Set.subset_union_right

/-- A copy is written to spare frames, and its source only read. -/
theorem Sound.confines_copySpace (h : s.Sound p) (j : Nat) :
    s.Confines p F ((perform (.copySpace j)).run s) := by
  rcases s.space_cases j with ⟨sp, ho⟩ | hspace
  · rw [run_copySpace ho]
    apply confines_make _ rfl rfl
    rw [← p.spare_perm (owned_perm ho (t := sp.table) rfl)]
    refine (AddressSpace.copy_meets (h.held ho rfl)).mono ?_ ?_ fun _ _ => trivial
    · rintro c k ⟨-, m, hclone⟩
      exact hclone.touches
    · intro _ k hrefused
      exact hrefused.touches
  · rw [run_copySpace_of_no_space hspace]
    exact confines_idle

/-! ## Giving back -/

/-- Giving back an object writes to its cells or tables. -/
theorem confines_giveUp {x : Op Unit} (ho : s.object i = some o)
    (hx : ∃ k', x.run s.kernel = .done () k' ∧
      Kernel.Touches p (o.skeletonIn s.kernel.ram) s.kernel k') :
    s.Confines p (s.skeletonAt (some i)) ((op x).run (s.put i none)) := by
  obtain ⟨k', hrun, htouches⟩ := hx
  refine confines_op (kernel_put s i none) rfl ?_
  rw [hrun, skeletonAt_some ho]
  exact .done (htouches.mono Set.subset_union_left)

/-- Giving back a page table writes to the second-level tables. -/
theorem confines_giveUpTable {x : Op Unit} (ho : s.object i = some o) (ht : o.table? = some t)
    (hx : ∃ k', x.run s.kernel = .done () k' ∧ k'.Holds p (s.put i none).owned ∧
      Kernel.Touches p (t.mapIn s.kernel.ram).leafFrames s.kernel k') :
    s.Confines p (s.skeletonAt (some i)) ((op x).run (s.put i none)) := by
  obtain ⟨k', hrun, -, htouches⟩ := hx
  refine confines_giveUp ho ⟨k', hrun, ?_⟩
  rw [Object.skeletonIn_of_table? ht]
  exact htouches.mono fun f hf => .inr hf

theorem Sound.confines_tearDown (h : s.Sound p) :
    s.Confines p (s.skeletonAt (some i)) ((perform (.tearDown i)).run s) := by
  refine confines_consume fun o act ho hact => ?_
  cases o with
  | cell kind c => cases hact
  | space sp => cases hact
  | table t =>
    obtain rfl := Option.some.inj hact
    exact confines_giveUpTable ho rfl (h.held ho rfl).tearDown

theorem Sound.confines_destroy (h : s.Sound p) :
    s.Confines p (s.skeletonAt (some i)) ((perform (.destroy i)).run s) := by
  refine confines_consume fun o act ho hact => ?_
  cases o with
  | cell kind c => cases hact
  | table t => cases hact
  | space sp =>
    obtain rfl := Option.some.inj hact
    exact confines_giveUpTable ho rfl (AddressSpace.destroy_done (h.held ho rfl))

theorem Sound.confines_release (h : s.Sound p) :
    s.Confines p (s.skeletonAt (some i)) ((perform (.release i)).run s) := by
  refine confines_consume fun o act ho hact => ?_
  obtain rfl := Option.some.inj hact
  obtain ⟨k', hrun, -, htouches⟩ := h.release_touches ho
  exact confines_giveUp ho ⟨k', hrun, htouches⟩

/-- A request writes to the cells and tables of the object that it modifies, to spare frames and to
records. -/
theorem Sound.perform_confines (h : s.Sound p) {r : Request} (hr : ¬ r.Stores) :
    s.Confines p (s.skeletonAt r.target?) ((perform r).run s) := by
  have hholds := h.holds_owned
  cases r with
  | allocate count => exact h.confines_op_lend (hholds.allocate_meets count)
  | allocateCleared count => exact h.confines_op_lend (hholds.allocateCleared_meets count)
  | allocatePages count => exact h.confines_allocatePages count
  | free a => exact h.confines_free a
  | mustFree a => exact h.confines_mustFree a
  | freePages v => exact h.confines_freePages v
  | poke a v => exact absurd trivial hr
  | newCell kind d => exact h.confines_newCell kind d
  | nest j => exact h.confines_nest
  | setCell j d => exact h.confines_setCell d
  | setNested j inner => exact h.confines_setNested inner
  | setElement j index w => exact h.confines_setElement index w
  | newTable => exact h.confines_newTable
  | openSlot j slot => exact h.confines_openSlot slot
  | closeSlot j slot => exact h.confines_closeSlot slot
  | mapPage j slot entry writable => exact h.confines_mapPage slot entry writable
  | writeProtect j a => exact h.confines_writeProtect a
  | copyTable j target => exact h.confines_copyTable target
  | store j a v => exact absurd trivial hr
  | tearDown j => exact h.confines_tearDown
  | newSpace => exact h.confines_newSpace
  | addRegion j start size permissions => exact h.confines_addRegion start size permissions
  | beginLoad j => exact h.confines_onSpace fun _ _ _ _ _ => .done (Kernel.Touches.refl p _ s.kernel)
  | endLoad j => exact h.confines_endLoad
  | fault j? code a => exact h.confines_fault j? code a
  | copySpace j => exact h.confines_copySpace j
  | destroy j => exact h.confines_destroy
  | release j => exact h.confines_release
  | drive f => exact .done ⟨Kernel.Touches.refl p _ s.kernel, .inl rfl⟩

/-! ## What is written, and what is not -/

/-- What a request changed of RAM, when the object at a place was modified, or none. Everything that
is somebody's and not in the skeleton of that object is the same. -/
structure Footprint (p : FramePool) (s : Session) (i? : Option Nat) (s' : Session) : Prop where
  size_eq : s'.kernel.ram.size = s.kernel.ram.size
  /-- A byte that changed is the record of a frame that was handed out or taken back, or lies in a
  frame that was free, or in a cell or a table of the object. -/
  changed : ∀ n, s'.kernel.ram.byte n ≠ s.kernel.ram.byte n →
    (∃ f < p.total, n = p.records.val + f ∧ p.isFree s'.kernel.ram f ≠ p.isFree s.kernel.ram f) ∨
      (n / pageSize < p.total ∧ p.isFree s.kernel.ram (n / pageSize) = true) ∨
        n / pageSize ∈ s.skeletonAt i?
  /-- The memory of the kernel, which ends where the records start. -/
  kernel_eq : ∀ n < p.records.val, s'.kernel.ram.byte n = s.kernel.ram.byte n
  block_eq : ∀ f ∈ framesOf s.blocks, s.kernel.ram.SameFrame s'.kernel.ram f
  /-- The resident pages of all tables, those of the object among them. -/
  page_eq : ∀ j o t a f, s.object j = some o → o.table? = some t →
    (t.entryIn s.kernel.ram a).frame? = some f → s.kernel.ram.SameFrame s'.kernel.ram f.number.val
  other_eq : ∀ j o, i? ≠ some j → s.object j = some o → ∀ f ∈ o.skeletonIn s.kernel.ram,
    s.kernel.ram.SameFrame s'.kernel.ram f

/-- Objects at different places have no frame in common. -/
theorem Sound.not_mem_skeletonAt (h : s.Sound p) {i? : Option Nat} (hne : i? ≠ some j)
    (ho : s.object j = some o) {f : Nat} (hf : f ∈ framesOf (o.blocksIn s.kernel.ram)) :
    f ∉ s.skeletonAt i? := by
  rintro ⟨i, rfl, o', ho', hf'⟩
  have hbeside := h.holds_owned.perm (owned_object_perm ho).symm
  have hput : (s.put j none).object i = some o' := by
    rw [object_put_of_ne fun heq => hne (congrArg some heq.symm), ho']
  exact hbeside.represents.disjoint_of_append hf (mem_owned_of_mem hput (o'.skeleton_subset _ hf'))

theorem skeletonAt_subset (s : Session) (i? : Option Nat) :
    s.skeletonAt i? ⊆ framesOf s.objectBlocks := by
  rintro f ⟨i, -, o, ho, hf⟩
  exact mem_objectBlocks_of_mem ho (o.skeleton_subset _ hf)

/-- The page of an address is in no skeleton, be it that of its own table. -/
theorem Sound.page_not_mem_skeletonAt (h : s.Sound p) (i? : Option Nat) (ho : s.object j = some o)
    (ht : o.table? = some t) {a : VirtualAddress} {f : PhysicalAddress}
    (hf : (t.entryIn s.kernel.ram a).frame? = some f) :
    f.number.val ∈ framesOf (o.blocksIn s.kernel.ram) ∧ f.number.val ∉ s.skeletonAt i? := by
  have hheld := h.held ho ht
  obtain ⟨pg, hpg, rfl⟩ := hheld.page_of_frame? hf
  rw [number_frameAt (hheld.holds.frame_lt (hheld.page_mem hpg))]
  have hmem : pg.frame ∈ framesOf (o.blocksIn s.kernel.ram) := by
    rw [Object.blocksIn_of_table? ht]
    exact t.page_mem_blocks hpg
  refine ⟨hmem, ?_⟩
  by_cases heq : i? = some j
  · obtain ⟨l, hl, hpage⟩ := TableMap.page_eq_some.1 hpg
    rw [heq, skeletonAt_some ho, Object.skeletonIn_of_table? ht]
    exact hheld.page_not_mem_skeleton hl hpage
  · exact h.not_mem_skeletonAt heq ho hmem

/-- A frame that is owned and was not written to is the same. -/
theorem Wrote.sameFrame (hwrote : s.Wrote p F s') (h : s.Sound p) {f : Nat}
    (hf : f ∈ framesOf s.owned) (hout : f ∉ F) : s.kernel.ram.SameFrame s'.kernel.ram f := by
  apply hwrote.touches.sameFrame h.holds_owned.sound (h.holds_owned.frame_bounds hf).1
  rintro (hmem | hspare)
  · exact hout hmem
  · exact hspare.2.2 hf

/-- A byte of a record changes with its frame, and any other byte lies in a frame that was written
to. -/
theorem Wrote.changed (hwrote : s.Wrote p F s') (h : s.Sound p) (h' : s'.Sound p) {n : Nat}
    (hne : s'.kernel.ram.byte n ≠ s.kernel.ram.byte n) :
    (∃ f < p.total, n = p.records.val + f ∧ p.isFree s'.kernel.ram f ≠ p.isFree s.kernel.ram f) ∨
      (n / pageSize < p.total ∧ p.isFree s.kernel.ram (n / pageSize) = true) ∨
        n / pageSize ∈ F := by
  by_cases hrecord : p.IsRecord n
  · obtain ⟨hlow, hhigh⟩ := hrecord
    obtain ⟨f, rfl⟩ := Nat.exists_eq_add_of_le hlow
    have hf : f < p.total := Nat.lt_of_add_lt_add_left hhigh
    refine .inl ⟨f, hf, rfl, hwrote.books.isFree_ne h h' hf fun heq => ?_⟩
    exact hne (congrArg FrameRecord.bits heq)
  · right
    have hmem : n / pageSize ∈ F ∪ p.spare s.owned := by
      by_contra hout
      exact hne (hwrote.touches.byte_eq n hout hrecord)
    rcases hmem with hF | ⟨hlow, hhigh, hout⟩
    · exact .inr hF
    · exact .inl ⟨hhigh, (h.holds_owned.represents.isFree_iff hhigh).2 ⟨hlow, hout⟩⟩

/-- The memory below the records is in no frame that is handed out. -/
theorem Wrote.byte_eq_of_lt (hwrote : s.Wrote p F s') (h : s.Sound p)
    (hF : F ⊆ framesOf s.owned) {n : Nat} (hn : n < p.records.val) :
    s'.kernel.ram.byte n = s.kernel.ram.byte n := by
  have hle := h.holds_owned.sound.records_le
  have hlow : ¬ p.reserved ≤ n / pageSize := by
    simp only [pageSize] at *
    omega
  apply hwrote.touches.byte_eq
  · rintro (hmem | hspare)
    · exact hlow (h.holds_owned.frame_bounds (hF hmem)).1
    · exact hlow hspare.1
  · intro hrecord
    exact absurd hrecord.1 (Nat.not_le.2 hn)

/-- What was written in a sound session, and left it sound, has a footprint. -/
theorem Wrote.footprint {i? : Option Nat} (hwrote : s.Wrote p (s.skeletonAt i?) s')
    (h : s.Sound p) (h' : s'.Sound p) : s.Footprint p i? s' where
  size_eq := hwrote.touches.size_eq
  changed _ := hwrote.changed h h'
  kernel_eq _ hn :=
    hwrote.byte_eq_of_lt h (fun _ hf => mem_owned_of_object (s.skeletonAt_subset i? hf)) hn
  block_eq f hf := by
    apply hwrote.sameFrame h (mem_framesOf_append.2 (.inl hf))
    intro hskeleton
    exact h.holds_owned.represents.disjoint_of_append hf (s.skeletonAt_subset i? hskeleton)
  page_eq j o t a f ho ht hf := by
    obtain ⟨hmem, hout⟩ := h.page_not_mem_skeletonAt i? ho ht hf
    exact hwrote.sameFrame h (mem_owned_of_mem ho hmem) hout
  other_eq j o hne ho f hf := by
    have hmem := o.skeleton_subset _ hf
    exact hwrote.sameFrame h (mem_owned_of_mem ho hmem) (h.not_mem_skeletonAt hne ho hmem)

/-- Wherever a run has led, a request that is granted or refused has its footprint and changes no
other byte of RAM. -/
theorem runs_footprint (hboot : s₀.Booted p)
    (hruns : Runs (fun s r => r.Permitted p s) s₀ trace s) {r : Request} (hr : r.Permitted p s)
    (hstores : ¬ r.Stores) :
    ((perform r).run s).Meets (fun _ s' => s.Footprint p r.target? s')
      (fun _ s' => s.Footprint p r.target? s') (fun _ => True) := by
  have hsound := hruns.sound (fun _ _ hr => hr) hboot.sound
  have hboth := (hsound.perform_confines hstores).and (hsound.perform_meets hr)
  refine hboth.mono ?_ ?_ fun _ _ => trivial
  · rintro _ s' ⟨hwrote, hfollows⟩
    exact hwrote.footprint hsound hfollows.sound
  · rintro _ s' ⟨hwrote, hfollows⟩
    exact hwrote.footprint hsound hfollows.sound

/-- On eight pages of RAM, a space with a resident page is given back. -/
theorem eight_pages_footprint : ∃ s₀ s s' : Session, s₀.Booted (pages 8) ∧
    Runs (fun s r => r.Permitted (pages 8) s) s₀
      [(.newSpace, true), (.fault (some 0) 0 stackPage, true)] s ∧
    (perform (.release 0)).run s = .done () s' ∧ s.Footprint (pages 8) (some 0) s' := by
  obtain ⟨s₀, s, sp, hboot, hruns, -⟩ := exists_resident (n := 8) (by decide) (by decide)
  obtain ⟨s', hrun⟩ := (hruns.sound (fun _ _ hr => hr) hboot.sound).release_done 0
  have hfootprint := runs_footprint hboot hruns (r := .release 0) trivial id
  exact ⟨s₀, s, s', hboot, hruns, hrun, hfootprint.of_done hrun⟩

end Session

end SoftPaging
