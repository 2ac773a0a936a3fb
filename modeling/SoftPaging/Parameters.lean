/-!
# Machine parameters

The numbers that describe the machine: pages and frames of 4096 bytes, a two-level page table of
1024 slots by 1024 entries, a user half that ends where the kernel segment begins, and a TLB of
64 slots of which the lowest eight are wired.

Every other module takes its sizes from here, so each of them is written down once.
-/

namespace SoftPaging

/-! ## Pages -/

/-- Number of low address bits that select a byte within a page. -/
abbrev pageShift : Nat := 12

/-- Bytes in a page, and in a frame. -/
abbrev pageSize : Nat := 4096

/-- Slots of a page directory. -/
abbrev directorySlots : Nat := 1024

/-- Entries of a second-level table. -/
abbrev tableEntries : Nat := 1024

/-- Number of low address bits below the directory index. -/
abbrev directoryShift : Nat := 22

/-! ## Address ranges -/

/-- One past the largest machine address: addresses have 32 bits. -/
abbrev addressLimit : Nat := 4294967296

/-- One past the largest kernel word: sizes and counts have 64 bits. -/
abbrev wordLimit : Nat := 18446744073709551616

/-- The largest amount of RAM that is managed, the width of the direct-mapped segment. -/
abbrev maxRam : Nat := 536870912

/-- Start of the kernel segment; user addresses lie strictly below it. -/
abbrev kernelSegment : Nat := 0x80000000

/-- The initial user stack pointer; the stack grows down from here. -/
abbrev userStackTop : Nat := kernelSegment

/-- Pages below the stack top that may be faulted in without a region. -/
abbrev stackGrowthPages : Nat := 16

/-! ## The TLB -/

/-- Slots of the TLB. -/
abbrev tlbSlots : Nat := 64

/-- The lowest slots of the TLB, which random replacement never chooses. -/
abbrev tlbWiredSlots : Nat := 8

end SoftPaging
