import Unstrip.Json.Printer
import Unstrip.Json.Record

/-!
# Reading JSON values

Reads back any value that can be written. Other than the readers of records this one does not know what to
expect, and it takes natural numbers of any size.
-/

namespace Unstrip.Json

/-- Reads a natural number of any size. -/
def readNumeral : Scanner Nat := fun text => do
  let (digits, text) ← scanWhole .unfinished text
  return (ofDigits digits, text)

/-- Reads what is left of a list or an object, with its closing bracket. Each turn reads at least one
character, so the length of the text is enough `fuel`. -/
def readSequence {α : Type} (close : Char) (read : Scanner α) :
    (fuel : Nat) → (isFirst : Bool) → Scanner (List α)
  | 0, _, _ => .error .unfinished
  | fuel + 1, isFirst, text =>
    match skipBlanks text with
    | [] => .error .unfinished
    | c :: text =>
      if c = close then .ok ([], text)
      else if ! isFirst && c ≠ ',' then .error .malformed
      else do
        let (item, text) ← read (if isFirst then c :: text else skipBlanks text)
        let (items, text) ← readSequence close read fuel false text
        return (item :: items, text)

def readEntry {α : Type} (read : Scanner α) : Scanner (String × α) := fun text => do
  let (name, text) ← readName text
  let (_, text) ← readColon text
  let (value, text) ← read text
  return ((name, value), text)

/-- Reads a value. The values inside it are shorter texts, so the length of the text is enough `fuel`. -/
def readValue : (fuel : Nat) → Scanner Json
  | 0, _ => .error .unfinished
  | fuel + 1, text =>
    match skipBlanks text with
    | [] => .error .unfinished
    | 't' :: text => do
      let (_, text) ← scanLiteral "rue".toList text
      return (.boolean true, text)
    | 'f' :: text => do
      let (_, text) ← scanLiteral "alse".toList text
      return (.boolean false, text)
    | '"' :: text => do
      let (cs, text) ← scanString text
      return (.quoted (String.ofList cs), text)
    | '[' :: text => do
      let (items, text) ← readSequence ']' (readValue fuel) text.length true text
      return (.array items, text)
    | '\x7b' :: text => do
      let (members, text) ← readSequence '\x7d' (readEntry (readValue fuel)) text.length true text
      return (.object members, text)
    | c :: text => do
      let (n, text) ← readNumeral (c :: text)
      return (.numeral n, text)

/-- Reads a text that holds one value and nothing else but blanks. -/
def ofText (text : String) : Except Defect Json := parse (readValue (text.toList.length + 1)) text

end Unstrip.Json
