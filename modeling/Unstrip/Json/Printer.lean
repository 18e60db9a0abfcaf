/-!
# Writing JSON

A `Json` value keeps the members of its objects in order. It is written as a list of pieces, so
that a writer can hand them on one at a time; `Layout` says where line breaks and blanks go.
-/

namespace Unstrip

/-- A value that can be written as JSON. -/
inductive Json where
  | boolean (value : Bool)
  | numeral (value : Nat)
  | quoted (value : String)
  | array (items : List Json)
  | object (members : List (String × Json))

namespace Json

structure Layout where
  /-- What stands between a member's name and its value. -/
  colon : String
  /-- What stands before an item or a closing bracket at the given depth. -/
  lineBreak : Nat → String

/-- No blanks at all. -/
def compactLayout : Layout := ⟨":", fun _ => ""⟩

/-- Every item on a line of its own, two blanks deeper than its brackets. -/
def prettyLayout : Layout := ⟨": ", fun depth => "\n" ++ String.ofList (List.replicate (2 * depth) ' ')⟩

/-- A digit of the last group in an escape sequence. -/
def hexDigit (n : Nat) : Char := Nat.digitChar (n % 16)

/-- How a character is written inside quotes: quotes, backslashes and control characters are
escaped, everything else stands for itself. -/
def escapeChar (c : Char) : List Char :=
  if c = '"' then ['\\', '"']
  else if c = '\\' then ['\\', '\\']
  else if c = '\x08' then ['\\', 'b']
  else if c = '\x0c' then ['\\', 'f']
  else if c = '\n' then ['\\', 'n']
  else if c = '\r' then ['\\', 'r']
  else if c = '\t' then ['\\', 't']
  else if c.toNat < 0x20 then
    ['\\', 'u', '0', '0', hexDigit (c.toNat / 16), hexDigit c.toNat]
  else [c]

def quote (text : List Char) : List Char := '"' :: text.flatMap escapeChar ++ ['"']

mutual

/-- The pieces of a value that stands at the given depth. -/
def pieces (layout : Layout) (depth : Nat) : Json → List String
  | .boolean value => [if value then "true" else "false"]
  | .numeral value => [String.ofList (Nat.toDigits 10 value)]
  | .quoted value => [String.ofList (quote value.toList)]
  | .array [] => ["[]"]
  | .array (item :: items) =>
    "[" :: layout.lineBreak (depth + 1) :: pieces layout (depth + 1) item
      ++ itemPieces layout depth items ++ [layout.lineBreak depth, "]"]
  | .object [] => ["\x7b\x7d"]
  | .object ((name, value) :: members) =>
    "\x7b" :: layout.lineBreak (depth + 1) :: String.ofList (quote name.toList) :: layout.colon ::
      pieces layout (depth + 1) value
      ++ memberPieces layout depth members ++ [layout.lineBreak depth, "\x7d"]

/-- The pieces of the items after the first. -/
def itemPieces (layout : Layout) (depth : Nat) : List Json → List String
  | [] => []
  | item :: items =>
    "," :: layout.lineBreak (depth + 1) :: pieces layout (depth + 1) item
      ++ itemPieces layout depth items

/-- The pieces of the members after the first. -/
def memberPieces (layout : Layout) (depth : Nat) : List (String × Json) → List String
  | [] => []
  | (name, value) :: members =>
    "," :: layout.lineBreak (depth + 1) :: String.ofList (quote name.toList) :: layout.colon ::
      pieces layout (depth + 1) value
      ++ memberPieces layout depth members

end

/-- The value without any blanks. -/
def compact (value : Json) : String := String.join (value.pieces compactLayout 0)

/-- The pieces of the value with one item on each line. -/
def prettyPieces (value : Json) : List String := value.pieces prettyLayout 0

end Json

end Unstrip
