/-!
# Hexadecimal text

Addresses are shown in lower-case hexadecimal behind `0x`, either with as many digits as they need
or padded with zeros to the eight digits of a machine word.
-/

namespace SoftPaging

/-- The shortest hexadecimal form of `n` behind `0x`. -/
def hex (n : Nat) : String :=
  "0x" ++ String.ofList (Nat.toDigits 16 n)

/-- The hexadecimal form of `n` behind `0x`, padded with zeros to eight digits. A number that needs
more digits keeps them all. -/
def hexWord (n : Nat) : String :=
  "0x" ++ String.ofList (List.leftpad 8 '0' (Nat.toDigits 16 n))

end SoftPaging
