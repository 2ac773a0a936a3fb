import Mathlib
import SoftPaging.Paging.Entry
import SoftPaging.Proofs.Pool.Address

/-!
# Entries of mapped pages

The memory manager writes two kinds of entry only: the empty one, and that of a `Page`, which is
valid, names a frame, and is dirty if the page is writable. `entryOf` is the entry of a page or of
none; the lemmas below read it back with what the hardware and the manager look at.

The frame and the flags of an entry share no bit. What is kept of either by a mask is therefore a
fact about the masks, and the frame itself stays a variable throughout.
-/

namespace SoftPaging

/-- A mapped page. -/
structure Page where
  frame : Nat
  writable : Bool
deriving DecidableEq

namespace Page

/-- The entry that maps the page. -/
def entry (pg : Page) : PageEntry :=
  ⟨((frameAt pg.frame).toWord &&& PageEntry.frameMask) ||| (PageFlags.mapped pg.writable).bits⟩

/-- The page without write permission. -/
def readOnly (pg : Page) : Page := ⟨pg.frame, false⟩

end Page

/-- The entry of a page, the empty one for none. -/
def entryOf : Option Page → PageEntry
  | some pg => pg.entry
  | none => .empty

@[simp] theorem entryOf_none : entryOf none = .empty := rfl

@[simp] theorem entryOf_some (pg : Page) : entryOf (some pg) = pg.entry := rfl

/-- The frame mask keeps the word of an address on a page boundary. -/
theorem toWord_and_frameMask {a : PhysicalAddress} (h : a.isPageAligned = true) :
    a.toWord &&& PageEntry.frameMask = a.toWord := by
  have hmask : (a.toWord &&& PageEntry.frameMask).toNat = a.pageBase.val :=
    a.toNat_and_pageMask
  apply UInt32.toNat_inj.1
  rw [hmask, Address.pageBase_val, Address.toNat_toWord,
    Nat.div_mul_cancel (Nat.dvd_of_mod_eq_zero (Address.isPageAligned_iff.1 h))]

namespace PageEntry

theorem map_of_aligned {a : PhysicalAddress} (h : a.isPageAligned = true) (flags : PageFlags) :
    map a flags = .ok ⟨(a.toWord &&& frameMask) ||| flags.bits⟩ := by
  rw [map, Address.isAligned_pageSize, h]
  rfl

/-- Mapping a frame makes the entry of its page. -/
theorem map_frameAt {f : Nat} (hf : f < 1048576) (writable : Bool) :
    map (frameAt f) (.mapped writable) = .ok (Page.entry ⟨f, writable⟩) :=
  map_of_aligned (isPageAligned_frameAt hf) _

@[simp] theorem isValid_empty : empty.isValid = false := rfl

@[simp] theorem isDirty_empty : empty.isDirty = false := rfl

@[simp] theorem frame?_empty : empty.frame? = none := rfl

@[simp] theorem translate_empty (a : VirtualAddress) : empty.translate a = none := rfl

theorem or_and_distrib (x y m : UInt32) : (x ||| y) &&& m = x &&& m ||| y &&& m := by
  apply UInt32.toNat_inj.1
  rw [UInt32.toNat_and, UInt32.toNat_or, Nat.and_or_distrib_right]
  simp only [UInt32.toNat_and, UInt32.toNat_or]

/-- What a mask without frame bits keeps of an entry is what it keeps of the flags. -/
theorem and_mask_of_flags (x flags : UInt32) {m : UInt32} (hm : frameMask &&& m = 0) :
    (x &&& frameMask ||| flags) &&& m = flags &&& m := by
  rw [or_and_distrib, UInt32.and_assoc, hm, UInt32.and_zero, UInt32.zero_or]

/-- What a mask with all frame bits keeps of an entry. -/
theorem and_mask_of_frame (x flags : UInt32) {m : UInt32} (hm : frameMask &&& m = frameMask) :
    (x &&& frameMask ||| flags) &&& m = x &&& frameMask ||| flags &&& m := by
  rw [or_and_distrib, UInt32.and_assoc, hm]

end PageEntry

theorem PageFlags.contains_valid_mapped (writable : Bool) :
    (mapped writable).contains .valid = true := by
  cases writable <;> decide

namespace Page

variable (pg : Page)

@[simp] theorem flags_entry : pg.entry.flags = .mapped pg.writable := by
  unfold PageEntry.flags PageFlags.ofBits entry
  rw [PageEntry.and_mask_of_flags _ _ (by decide)]
  cases pg.writable <;> decide

@[simp] theorem isValid_entry : pg.entry.isValid = true := by
  rw [PageEntry.isValid, flags_entry]
  exact PageFlags.contains_valid_mapped pg.writable

@[simp] theorem isDirty_entry : pg.entry.isDirty = pg.writable := by
  rw [PageEntry.isDirty, flags_entry]
  cases pg.writable <;> decide

theorem frameBits_entry (h : pg.frame < 1048576) :
    pg.entry.frameBits = (frameAt pg.frame).toWord := by
  have hflags : (PageFlags.mapped pg.writable).bits &&& PageEntry.frameMask = 0 := by
    cases pg.writable <;> decide
  unfold PageEntry.frameBits entry
  rw [PageEntry.and_mask_of_frame _ _ (by decide), hflags, UInt32.or_zero,
    toWord_and_frameMask (isPageAligned_frameAt h)]

theorem frame?_entry (h : pg.frame < 1048576) : pg.entry.frame? = some (frameAt pg.frame) := by
  rw [PageEntry.frame?, isValid_entry, if_pos rfl, pg.frameBits_entry h, Address.ofWord_toWord]

/-- Taking write permission from an entry takes it from its page. -/
@[simp] theorem writeProtect_entry : pg.entry.writeProtect = pg.readOnly.entry := by
  have hflags : (PageFlags.mapped pg.writable).bits &&& ~~~PageFlags.dirty.bits =
      (PageFlags.mapped false).bits := by
    cases pg.writable <;> decide
  unfold PageEntry.writeProtect readOnly entry
  rw [PageEntry.and_mask_of_frame _ _ (by decide), hflags]

/-- A mapped page is translated to the same offset of its frame. -/
theorem translate_entry (h : pg.frame < 1048576) (a : VirtualAddress) :
    ∃ pa, pg.entry.translate a = some pa ∧ pa.val = pg.frame * pageSize + a.pageOffset := by
  unfold PageEntry.translate
  rw [isValid_entry, if_pos rfl]
  refine ⟨_, rfl, ?_⟩
  change pg.entry.frameBits.toNat + a.pageOffset = _
  rw [pg.frameBits_entry h, Address.toNat_toWord, val_frameAt h]

end Page

/-- The flags of an entry tell of the permission of its page, and of no more. -/
theorem flags_entryOf_congr {o o' : Option Page}
    (h : o.map Page.writable = o'.map Page.writable) : (entryOf o).flags = (entryOf o').flags := by
  cases o with
  | none =>
    rw [Option.map_none, eq_comm, Option.map_eq_none_iff] at h
    rw [h]
  | some pg =>
    rw [Option.map_some, eq_comm] at h
    obtain ⟨pg', rfl, hwritable⟩ := Option.map_eq_some_iff.1 h
    rw [entryOf_some, entryOf_some, Page.flags_entry, Page.flags_entry, hwritable]

/-- The entry tells whether there is a page. -/
@[simp] theorem isValid_entryOf (o : Option Page) : (entryOf o).isValid = o.isSome := by
  cases o <;> simp

end SoftPaging
