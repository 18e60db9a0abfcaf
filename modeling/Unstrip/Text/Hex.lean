/-!
# Hexadecimal text

Offsets and addresses are shown in lower-case hexadecimal, either with as many digits as needed
or filled up with zeros to a fixed count.
-/

namespace Unstrip

/-- The number in lower-case hexadecimal, without leading zeros. -/
def hex (n : Nat) : String := String.ofList (Nat.toDigits 16 n)

/-- The number in lower-case hexadecimal, filled up with zeros to at least `width` digits. -/
def hexPadded (width n : Nat) : String :=
  String.ofList ((Nat.toDigits 16 n).leftpad width '0')

/-- The bytes as pairs of lower-case hexadecimal digits. -/
def hexBytes (bytes : List UInt8) : String :=
  String.join (bytes.map fun b => hexPadded 2 b.toNat)

end Unstrip
