import Unstrip.Json.Number

/-!
# Scanning JSON

The parts that all readers of JSON share: blanks, literals, strings, numbers, and values that are
passed over. Text is read from left to right, and the first problem ends the reading. Every
scanner takes the text that is left and returns what it has read with what is left after it.
-/

namespace Unstrip.Json

inductive Defect where
  /-- The text is not JSON. -/
  | malformed
  /-- The text ends too early. -/
  | unfinished
  /-- The text is JSON so far, but not for the wanted value. -/
  | unsuitable
  deriving DecidableEq, Repr

/-- Reads a value from the front of a text. -/
abbrev Scanner (α : Type) := List Char → Except Defect (α × List Char)

def isBlank (c : Char) : Bool := c = ' ' || c = '\t' || c = '\n' || c = '\r'

def skipBlanks (text : List Char) : List Char := text.dropWhile isBlank

def scanLiteral : List Char → Scanner Unit
  | [], text => .ok ((), text)
  | _ :: _, [] => .error .unfinished
  | c :: cs, d :: text => if c = d then scanLiteral cs text else .error .malformed

def hexValue? (c : Char) : Option Nat :=
  if '0' ≤ c ∧ c ≤ '9' then some (c.toNat - '0'.toNat)
  else if 'a' ≤ c ∧ c ≤ 'f' then some (c.toNat - 'a'.toNat + 10)
  else if 'A' ≤ c ∧ c ≤ 'F' then some (c.toNat - 'A'.toNat + 10)
  else none

/-- The number that four hexadecimal digits spell. -/
def hexUnit? (a b c d : Char) : Option Nat := do
  let a ← hexValue? a
  let b ← hexValue? b
  let c ← hexValue? c
  let d ← hexValue? d
  return ((a * 16 + b) * 16 + c) * 16 + d

/-- What is wrong with an escape that has fewer than four characters after its `u`: the text ends
early if it has fewer than four bytes left. -/
def shortEscape (text : List Char) : Defect :=
  if (String.ofList text).utf8ByteSize < 4 then .unfinished else .malformed

/-- The character that a one-letter escape stands for. -/
def escaped? : Char → Option Char
  | '"' => some '"'
  | '\\' => some '\\'
  | '/' => some '/'
  | 'b' => some '\x08'
  | 'f' => some '\x0c'
  | 'n' => some '\n'
  | 'r' => some '\r'
  | 't' => some '\t'
  | _ => none

/-- Whether a code unit opens a surrogate pair. -/
def isHighSurrogate (unit : Nat) : Bool := 0xd800 ≤ unit && unit < 0xdc00

/-- Whether a code unit closes a surrogate pair. -/
def isLowSurrogate (unit : Nat) : Bool := 0xdc00 ≤ unit && unit < 0xe000

/-- The character that a surrogate pair stands for. -/
def joinSurrogates (high low : Nat) : Char :=
  Char.ofNat (0x10000 + (high - 0xd800) * 0x400 + (low - 0xdc00))

/-- Puts a character in front of a string that is being read. -/
def pushChar (c : Char) : Except Defect (List Char × List Char) →
    Except Defect (List Char × List Char)
  | .ok (cs, rest) => .ok (c :: cs, rest)
  | .error defect => .error defect

@[simp] theorem pushChar_ok (c : Char) (cs rest : List Char) :
    pushChar c (.ok (cs, rest)) = .ok (c :: cs, rest) := rfl

/-- Reads a string whose opening quote has been read. Surrogates have to come in pairs. -/
def scanString : Scanner (List Char)
  | [] => .error .unfinished
  | c :: text =>
    if c = '"' then .ok ([], text)
    else if c.toNat < 0x20 then .error .malformed
    else if c ≠ '\\' then pushChar c (scanString text)
    else
      match text with
      | [] => .error .unfinished
      | e :: text =>
        if e ≠ 'u' then
          match escaped? e with
          | some c => pushChar c (scanString text)
          | none => .error .malformed
        else
          match text with
          | a :: b :: c :: d :: text =>
            match hexUnit? a b c d with
            | none => .error .malformed
            | some unit =>
              if isLowSurrogate unit then .error .malformed
              else if ! isHighSurrogate unit then pushChar (Char.ofNat unit) (scanString text)
              else
                match text with
                | [] => .error .unfinished
                | s :: text =>
                  if s ≠ '\\' then .error .malformed
                  else
                    match text with
                    | [] => .error .unfinished
                    | u :: text =>
                      if u ≠ 'u' then .error .malformed
                      else
                        match text with
                        | a :: b :: c :: d :: text =>
                          match hexUnit? a b c d with
                          | none => .error .malformed
                          | some low =>
                            if isLowSurrogate low then
                              pushChar (joinSurrogates unit low) (scanString text)
                            else .error .malformed
                        | text => .error (shortEscape text)
          | text => .error (shortEscape text)

/-- Passes over a string whose opening quote has been read. Surrogates may stand alone. -/
def skipString : Scanner Unit
  | [] => .error .unfinished
  | c :: text =>
    if c = '"' then .ok ((), text)
    else if c.toNat < 0x20 then .error .malformed
    else if c ≠ '\\' then skipString text
    else
      match text with
      | [] => .error .unfinished
      | e :: text =>
        if e ≠ 'u' then
          match escaped? e with
          | some _ => skipString text
          | none => .error .malformed
        else
          match text with
          | a :: b :: c :: d :: text =>
            if (hexUnit? a b c d).isSome then skipString text else .error .malformed
          | text => .error (shortEscape text)

/-- The defect of a number that does not go on with a digit. -/
def missingDigit (atEnd : Defect) : List Char → Defect
  | [] => atEnd
  | _ :: _ => .malformed

/-- Reads the digits of a whole part: a single zero, or digits that do not begin with one. -/
def scanWhole (atEnd : Defect) (text : List Char) : Except Defect (List Nat × List Char) :=
  match spanDigits text with
  | ([], rest) => .error (missingDigit atEnd rest)
  | (0 :: _ :: _, _) => .error .malformed
  | (ds, rest) => .ok (ds, rest)

def scanFraction (atEnd : Defect) : List Char → Except Defect (Option (List Nat) × List Char)
  | '.' :: text =>
    match spanDigits text with
    | ([], rest) => .error (missingDigit atEnd rest)
    | (ds, rest) => .ok (some ds, rest)
  | text => .ok (none, text)

def scanExponent (atEnd : Defect) : List Char → Except Defect (Option Int × List Char)
  | c :: text =>
    if c = 'e' ∨ c = 'E' then
      let (isNegative, text) :=
        match text with
        | '+' :: text => (false, text)
        | '-' :: text => (true, text)
        | text => (false, text)
      match spanDigits text with
      | ([], rest) => .error (missingDigit atEnd rest)
      | (ds, rest) =>
        let size : Int := ofDigits ds
        .ok (some (if isNegative then - size else size), rest)
    else .ok (none, c :: text)
  | [] => .ok (none, [])

/-- Reads a number that has no sign. The result is the number itself if it is whole, written
without fraction and exponent, and exact; otherwise it is `none`. A number whose nearest double
is infinite is refused. -/
def scanNumber : Scanner (Option Nat) := fun text => do
  let (whole, text) ← scanWhole .unfinished text
  let (decimals?, text) ← scanFraction .unfinished text
  let (power?, text) ← scanExponent .unfinished text
  let value := (Decimal.pushWhole 0 whole).pushFraction (decimals?.getD [])
  let value : Decimal := ⟨value.significand, value.exponent + power?.getD 0⟩
  if decimals?.isNone ∧ power?.isNone ∧ value.exponent = 0 then return (some value.significand, text)
  else if value.isFinite then return (none, text)
  else throw .malformed

def skipNumber : Scanner Unit := fun text => do
  let (_, text) ← scanWhole .malformed text
  let (_, text) ← scanFraction .malformed text
  let (_, text) ← scanExponent .malformed text
  return ((), text)

inductive Bracket where
  | list
  | object
  deriving DecidableEq, Repr

/-- What may come next where a value is passed over. -/
inductive Expecting where
  /-- A value. -/
  | value
  /-- A value, or the end of the list that has just been opened. -/
  | firstItem
  /-- The name of a member. -/
  | member
  /-- The name of a member, or the end of the object that has just been opened. -/
  | firstMember
  /-- A comma, or the end of the innermost list or object. -/
  | more
  deriving DecidableEq, Repr

/-- Reads the name of a member and the colon after it, both only passed over. -/
def skipName : Scanner Unit
  | '"' :: text => do
    let (_, text) ← skipString text
    match skipBlanks text with
    | ':' :: text => return ((), text)
    | [] => throw .unfinished
    | _ :: _ => throw .malformed
  | [] => .error .unfinished
  | _ :: _ => .error .malformed

/-- Passes over a value that has neither items nor members. -/
def skipScalar : Scanner Unit
  | '"' :: text => skipString text
  | '-' :: text => skipNumber text
  | 'n' :: text => scanLiteral "ull".toList text
  | 't' :: text => scanLiteral "rue".toList text
  | 'f' :: text => scanLiteral "alse".toList text
  | [] => .error .unfinished
  | c :: text => if c.isDigit then skipNumber (c :: text) else .error .malformed

/-- Goes on passing over a value, inside the given brackets. Each turn reads at least one
character, so the length of the text is enough `fuel`. -/
def skipFrom : (fuel : Nat) → Expecting → List Bracket → Scanner Unit
  | 0, _, _, _ => .error .unfinished
  | fuel + 1, expecting, brackets, text =>
    match expecting, skipBlanks text with
    | .firstItem, ']' :: text => close fuel brackets text
    | .firstMember, '\x7d' :: text => close fuel brackets text
    | .more, ',' :: text =>
      match brackets with
      | .list :: _ => skipFrom fuel .value brackets text
      | .object :: _ => skipFrom fuel .member brackets text
      | [] => .error .malformed
    | .more, ']' :: text =>
      match brackets with
      | .list :: _ => close fuel brackets text
      | _ => .error .malformed
    | .more, '\x7d' :: text =>
      match brackets with
      | .object :: _ => close fuel brackets text
      | _ => .error .malformed
    | .more, [] => .error .unfinished
    | .more, _ :: _ => .error .malformed
    | .member, text | .firstMember, text => do
      let (_, text) ← skipName text
      skipFrom fuel .value brackets text
    | _, '[' :: text => skipFrom fuel .firstItem (.list :: brackets) text
    | _, '\x7b' :: text => skipFrom fuel .firstMember (.object :: brackets) text
    | _, text => do
      let (_, text) ← skipScalar text
      if brackets.isEmpty then return ((), text) else skipFrom fuel .more brackets text
where
  /-- Leaves the innermost list or object. -/
  close (fuel : Nat) (brackets : List Bracket) (text : List Char) : Except Defect (Unit × List Char) :=
    match brackets with
    | [] | [_] => .ok ((), text)
    | _ :: outer => skipFrom fuel .more outer text

def skipValue : Scanner Unit := fun text => skipFrom (text.length + 1) .value [] text

/-- Reads the value that stands where another was wanted. It is unsuitable if it can be read at
all; only the front of a list or an object is looked at. -/
def unsuitableValue {α : Type} : Scanner α
  | [] => .error .unfinished
  | '"' :: text => do
    let _ ← scanString text
    throw .unsuitable
  | '-' :: text => do
    let _ ← scanNumber text
    throw .unsuitable
  | 'n' :: text => do
    let _ ← scanLiteral "ull".toList text
    throw .unsuitable
  | 't' :: text => do
    let _ ← scanLiteral "rue".toList text
    throw .unsuitable
  | 'f' :: text => do
    let _ ← scanLiteral "alse".toList text
    throw .unsuitable
  | '[' :: _ => .error .unsuitable
  | '\x7b' :: _ => .error .unsuitable
  | c :: text =>
    if c.isDigit then do
      let _ ← scanNumber (c :: text)
      throw .unsuitable
    else .error .malformed

end Unstrip.Json
