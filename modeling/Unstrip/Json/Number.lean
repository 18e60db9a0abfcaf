/-!
# Numbers in JSON

A number is read digit by digit into a `Decimal`: a significand of at most 64 bits and a power of
ten. Digits that no longer fit are dropped; in the whole part they still count as a power of ten.
A number whose nearest double would be infinite is refused, and `Decimal.isFinite` decides that
in exact arithmetic.
-/

namespace Unstrip.Json

def digitValue? (c : Char) : Option Nat :=
  if '0' ≤ c ∧ c ≤ '9' then some (c.toNat - '0'.toNat) else none

/-- The longest run of digits at the front, as their values, and what follows it. -/
def spanDigits : List Char → List Nat × List Char
  | [] => ([], [])
  | c :: rest =>
    match digitValue? c with
    | some d =>
      let (ds, rest) := spanDigits rest
      (d :: ds, rest)
    | none => ([], c :: rest)

def ofDigits (ds : List Nat) : Nat := ds.foldl (fun n d => n * 10 + d) 0

/-- One more than the greatest number that is read exactly. -/
def exactLimit : Nat := 1 <<< 64

/-- A number of the form `significand * 10 ^ exponent`. -/
structure Decimal where
  significand : Nat
  exponent : Int
  deriving DecidableEq, Repr

/-- Appends the digits of the whole part. From the first digit on that does not fit, each counts
as a power of ten. -/
def Decimal.pushWhole (significand : Nat) : List Nat → Decimal
  | [] => ⟨significand, 0⟩
  | d :: ds =>
    if significand * 10 + d < exactLimit then pushWhole (significand * 10 + d) ds
    else ⟨significand, (d :: ds).length⟩

/-- Appends the digits of the fraction. From the first digit on that does not fit, they are
dropped. -/
def Decimal.pushFraction (number : Decimal) : List Nat → Decimal
  | [] => number
  | d :: ds =>
    if number.significand * 10 + d < exactLimit then
      pushFraction ⟨number.significand * 10 + d, number.exponent - 1⟩ ds
    else number

/-- The natural number nearest to `n` that 53 bits and a power of two can express; a tie goes to
the even neighbour. -/
def roundToDouble (n : Nat) : Nat :=
  let unit := 1 <<< (n.log2 - 52)
  let quotient := n / unit
  let remainder := n % unit
  let up := unit < 2 * remainder ∨ (2 * remainder = unit ∧ quotient % 2 = 1)
  (if up then quotient + 1 else quotient) * unit

/-- The least product of two doubles that rounds to infinity: the midpoint between the greatest
double and the next power of two. -/
def overflowThreshold : Nat := (1 <<< 1024) - (1 <<< 970)

/-- Whether the product of the nearest double to the significand and the nearest double to the
power of ten is finite. -/
def Decimal.isFinite (number : Decimal) : Bool :=
  match number.exponent with
  | .negSucc _ => true
  | .ofNat exponent =>
    number.significand = 0 ||
      (exponent ≤ 308 &&
        roundToDouble number.significand * roundToDouble (Nat.pow 10 exponent) < overflowThreshold)

end Unstrip.Json
