import SoftPaging.Parameters

/-!
# Rounding to a power of two

A word is rounded to a power of two by clearing its low bits. `lowBits n align` keeps the bits below
the alignment and `clearLow n align` clears them, both as masks over 64-bit words.
-/

namespace SoftPaging

/-- Whether `n` is a power of two: it is the power that its own bit length names. -/
def isPowerOfTwo (n : Nat) : Bool :=
  1 <<< n.log2 == n

/-- The bits of `n` below the power of two `align`. -/
def lowBits (n align : Nat) : Nat :=
  n &&& (align - 1)

/-- The word `n` with its bits below the power of two `align` cleared. -/
def clearLow (n align : Nat) : Nat :=
  n &&& (wordLimit - align)

end SoftPaging
