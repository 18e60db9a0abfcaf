import Unstrip.Json.Scanner

/-!
# Reading records from JSON

A record is read either from an object, whose members may come in any order and of which unknown
ones are passed over, or from a list of its fields in order, from which fields at the end may be
missing. A field that comes twice makes the text unsuitable. Whether a missing field has a default
is decided by the function that finishes the record.
-/

namespace Unstrip.Json

/-- Reads a natural number below `2 ^ 64`. -/
def readNumber : Scanner Nat := fun text =>
  match skipBlanks text with
  | '-' :: text => do
    let _ ← scanNumber text
    throw .unsuitable
  | c :: text =>
    if c.isDigit then do
      match ← scanNumber (c :: text) with
      | (some n, text) => return (n, text)
      | (none, _) => throw .unsuitable
    else unsuitableValue (c :: text)
  | [] => .error .unfinished

def readBool : Scanner Bool := fun text =>
  match skipBlanks text with
  | 't' :: text => do
    let (_, text) ← scanLiteral "rue".toList text
    return (true, text)
  | 'f' :: text => do
    let (_, text) ← scanLiteral "alse".toList text
    return (false, text)
  | text => unsuitableValue text

def readText : Scanner String := fun text =>
  match skipBlanks text with
  | '"' :: text => do
    let (cs, text) ← scanString text
    return (String.ofList cs, text)
  | text => unsuitableValue text

/-- Reads either `null` or a value. -/
def readOption {α : Type} (read : Scanner α) : Scanner (Option α) := fun text =>
  match skipBlanks text with
  | 'n' :: text => do
    let (_, text) ← scanLiteral "ull".toList text
    return (none, text)
  | text => do
    let (value, text) ← read text
    return (some value, text)

/-- A field of a record that is put together in a draft of type `σ`. -/
structure RecordField (σ : Type) where
  /-- The name of the member that holds the field. -/
  key : String
  /-- Whether the draft has the field already. -/
  isSet : σ → Bool
  /-- Reads the field into the draft. -/
  read : σ → Scanner σ

def readColon : Scanner Unit := fun text =>
  match skipBlanks text with
  | ':' :: text => .ok ((), text)
  | [] => .error .unfinished
  | _ :: _ => .error .malformed

/-- Reads the name of a member, whose opening quote comes next. -/
def readName : Scanner String
  | '"' :: text => do
    let (cs, text) ← scanString text
    return (String.ofList cs, text)
  | [] => .error .unfinished
  | _ :: _ => .error .malformed

def readMember {σ : Type} (fields : List (RecordField σ)) (draft : σ) : Scanner σ := fun text => do
  let (name, text) ← readName text
  match fields.find? (·.key == name) with
  | some field =>
    if field.isSet draft then throw .unsuitable
    let (_, text) ← readColon text
    field.read draft text
  | none =>
    let (_, text) ← readColon text
    let (_, text) ← skipValue text
    return (draft, text)

/-- Reads members up to the closing bracket, which is left. Each turn reads at least one
character, so the length of the text is enough `fuel`. -/
def readMembers {σ : Type} (fields : List (RecordField σ)) :
    (fuel : Nat) → (isFirst : Bool) → σ → Scanner σ
  | 0, _, _, _ => .error .unfinished
  | fuel + 1, isFirst, draft, text =>
    match skipBlanks text with
    | [] => .error .unfinished
    | '\x7d' :: text => .ok (draft, '\x7d' :: text)
    | ',' :: text =>
      if isFirst then .error .malformed
      else do
        let (draft, text) ← readMember fields draft (skipBlanks text)
        readMembers fields fuel false draft text
    | text =>
      if isFirst then do
        let (draft, text) ← readMember fields draft text
        readMembers fields fuel false draft text
      else .error .malformed

def endObject : Scanner Unit := fun text =>
  match skipBlanks text with
  | '\x7d' :: text => .ok ((), text)
  | [] => .error .unfinished
  | _ :: _ => .error .malformed

/-- Looks for an item of a list. The result is the text that begins with it, or `none` before the
closing bracket. -/
def nextItem? (isFirst : Bool) (text : List Char) : Except Defect (Option (List Char)) :=
  match skipBlanks text with
  | [] => .error .unfinished
  | ']' :: _ => .ok none
  | ',' :: text =>
    if isFirst then .ok (some (',' :: text))
    else
      match skipBlanks text with
      | [] => .error .unfinished
      | ']' :: _ => .error .malformed
      | text => .ok (some text)
  | text => if isFirst then .ok (some text) else .error .malformed

def endList : Scanner Unit := fun text =>
  match skipBlanks text with
  | ']' :: text => .ok ((), text)
  | [] => .error .unfinished
  | _ :: _ => .error .malformed

/-- Reads the fields of a record from the items of a list, as far as there are any. -/
def readFields {σ : Type} : List (RecordField σ) → (isFirst : Bool) → σ → Scanner σ
  | [], _, draft, text => .ok (draft, text)
  | field :: fields, isFirst, draft, text => do
    match ← nextItem? isFirst text with
    | none => return (draft, text)
    | some text =>
      let (draft, text) ← field.read draft text
      readFields fields false draft text

/-- Finishes a record; one that lacks a field is unsuitable. -/
def finishRecord {σ α : Type} (finish : σ → Option α) (draft : σ) : Except Defect α :=
  match finish draft with
  | some value => .ok value
  | none => .error .unsuitable

/-- Reads a record from an object or from a list. -/
def readRecord {σ α : Type} (fields : List (RecordField σ)) (start : σ) (finish : σ → Option α) :
    Scanner α := fun text =>
  match skipBlanks text with
  | '[' :: text => do
    let (draft, text) ← readFields fields true start text
    let value ← finishRecord finish draft
    let (_, text) ← endList text
    return (value, text)
  | '\x7b' :: text => do
    let (draft, text) ← readMembers fields (text.length + 1) true start text
    let value ← finishRecord finish draft
    let (_, text) ← endObject text
    return (value, text)
  | text => unsuitableValue text

/-- Reads items up to the closing bracket, which is left. Each turn reads at least one character,
so the length of the text is enough `fuel`. -/
def readItems {α : Type} (read : Scanner α) : (fuel : Nat) → (isFirst : Bool) → Scanner (List α)
  | 0, _, _ => .error .unfinished
  | fuel + 1, isFirst, text => do
    match ← nextItem? isFirst text with
    | none => return ([], text)
    | some text =>
      let (item, text) ← read text
      let (items, text) ← readItems read fuel false text
      return (item :: items, text)

def readList {α : Type} (read : Scanner α) : Scanner (List α) := fun text =>
  match skipBlanks text with
  | '[' :: text => do
    let (items, text) ← readItems read (text.length + 1) true text
    let (_, text) ← endList text
    return (items, text)
  | text => unsuitableValue text

/-- Reads a text that holds one value and nothing else but blanks. -/
def parse {α : Type} (read : Scanner α) (text : String) : Except Defect α := do
  let (value, rest) ← read text.toList
  if (skipBlanks rest).isEmpty then return value else throw .malformed

end Unstrip.Json
