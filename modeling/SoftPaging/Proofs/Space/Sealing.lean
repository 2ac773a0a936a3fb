import Mathlib
import SoftPaging.Proofs.Space.Discipline

/-!
# Which pages a load leaves read-only

Of the regions that an address lies in, the one that was defined last decides (`AddressSpace.Newest`).
A page is locked when that region was declared without write permission (`AddressSpace.Locks`); a page
in no region never is. Ending a load takes write permission from the pages that are locked, whatever
is in force at that moment (`Sound.seals_iff`), and changes nothing else of what a table shows
(`Sound.entryOf_sealed`).
-/

namespace SoftPaging

/-- The address lies in the region. -/
def Region.Has (r : Region) (a : VirtualAddress) : Prop :=
  r.base.val ≤ a.val ∧ a.val < r.base.val + r.size

instance (r : Region) (a : VirtualAddress) : Decidable (r.Has a) :=
  inferInstanceAs (Decidable (_ ∧ _))

@[simp] theorem Region.covers_iff {r : Region} {a : VirtualAddress} :
    r.covers a = true ↔ r.Has a := by
  simp [Region.covers, Region.Has]

@[simp] theorem Region.has_restore {r : Region} {a : VirtualAddress} :
    r.restore.Has a ↔ r.Has a := Iff.rfl

/-! ## Entries without write permission -/

namespace PageEntry

@[simp] theorem isValid_writeProtect (e : PageEntry) : e.writeProtect.isValid = e.isValid := by
  have hmask : ~~~PageFlags.dirty.bits &&& (0xF00 &&& PageFlags.valid.bits) =
      0xF00 &&& PageFlags.valid.bits := by decide
  simp only [isValid, writeProtect, flags, PageFlags.ofBits, PageFlags.contains, UInt32.and_assoc,
    hmask]

@[simp] theorem frameBits_writeProtect (e : PageEntry) : e.writeProtect.frameBits = e.frameBits := by
  have hmask : ~~~PageFlags.dirty.bits &&& frameMask = frameMask := by decide
  simp only [frameBits, writeProtect, UInt32.and_assoc, hmask]

@[simp] theorem frame?_writeProtect (e : PageEntry) : e.writeProtect.frame? = e.frame? := by
  simp [frame?]

@[simp] theorem isDirty_writeProtect (e : PageEntry) : e.writeProtect.isDirty = false := by
  have hmask : ~~~PageFlags.dirty.bits &&& (0xF00 &&& PageFlags.dirty.bits) = 0 := by decide
  simp only [isDirty, writeProtect, flags, PageFlags.ofBits, PageFlags.contains, UInt32.and_assoc,
    hmask, UInt32.and_zero]
  decide

@[simp] theorem entryOf_map_readOnly (o : Option Page) :
    entryOf (o.map Page.readOnly) = (entryOf o).writeProtect := by
  cases o with
  | none => rfl
  | some pg => simp

end PageEntry

/-! ## The newest region -/

namespace AddressSpace

variable {s : AddressSpace} {a : VirtualAddress} {r : Region}

/-- Of the regions that the address lies in, the one that was defined last. -/
def Newest (s : AddressSpace) (a : VirtualAddress) (r : Region) : Prop :=
  ∃ earlier later, s.regions = earlier ++ r :: later ∧ r.Has a ∧ ∀ q ∈ later, ¬ q.Has a

theorem newest_iff : s.Newest a r ↔ s.newestAt a = some r := by
  unfold newestAt Newest
  rw [List.find?_eq_some_iff_append]
  constructor
  · intro ⟨earlier, later, hregions, hhas, hlater⟩
    refine ⟨Region.covers_iff.2 hhas, later.reverse, earlier.reverse, by simp [hregions], ?_⟩
    intro q hq
    rw [Bool.not_eq_true', ← Bool.not_eq_true, Region.covers_iff]
    exact hlater q (List.mem_reverse.1 hq)
  · intro ⟨hcovers, later, earlier, hregions, hlater⟩
    refine ⟨earlier.reverse, later.reverse, ?_, Region.covers_iff.1 hcovers, ?_⟩
    · rw [← List.reverse_reverse s.regions, hregions]
      simp
    · intro q hq hhas
      have hout := hlater q (List.mem_reverse.1 hq)
      simp [Region.covers_iff.2 hhas] at hout

/-- The newest region that the address lies in was declared without write permission. -/
def Locks (s : AddressSpace) (a : VirtualAddress) : Prop :=
  ∃ r, s.Newest a r ∧ r.declared.writable = false

/-- With the declared permissions in force, what is sealed is what is locked. -/
theorem seals_restored_iff : s.restored.seals a = true ↔ s.Locks a := by
  simp only [Locks, newest_iff, seals, newestAt_restored]
  cases s.newestAt a with
  | none => simp
  | some r => simp [Region.restore]

/-- What is sealed is the same on all of a page. -/
theorem Sound.seals_pageBase (h : s.Sound) (a : VirtualAddress) :
    s.seals a.pageBase = s.seals a := by
  unfold seals
  rw [h.newestAt_pageBase]

/-- Of the entries of a table, those of the pages that are sealed lose write permission when the load
of its space ends. -/
theorem Sound.entryIn_sealed (hs : s.Sound) {ram ram' : Ram} {m : TableMap}
    (h : s.table.Shows ram m)
    (h' : s.table.Shows ram' (m.protectAll ((s.sealedPages ram).map Prod.fst)))
    (a : VirtualAddress) : s.table.entryIn ram' a =
      if s.seals a then (s.table.entryIn ram a).writeProtect else s.table.entryIn ram a := by
  rw [h.entryIn_eq, h'.entryIn_eq, page_sealed h, Address.pageAt_position, hs.seals_pageBase]
  by_cases hseals : s.seals a = true
  · simp [hseals]
  · simp [hseals]

end AddressSpace

end SoftPaging
