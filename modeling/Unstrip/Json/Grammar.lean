import Unstrip.Json.Printer
import Unstrip.Json.Scanner

/-!
# The grammar of JSON

Which texts stand for a value, said without a reader or a writer. Between the signs of a text there may be
blanks, and a character of a string may be written in several ways, so many texts stand for the same
value. Numbers are the natural ones, written without sign, fraction and exponent: a `Json` has no others.
-/

namespace Unstrip.Json

/-- The text consists of blanks, and may be empty. -/
def IsBlankText (text : List Char) : Prop := ∀ c ∈ text, isBlank c = true

section
variable {c : Char} {text more : List Char}

@[simp] theorem isBlankText_nil : IsBlankText [] := nofun

@[simp] theorem isBlankText_cons : IsBlankText (c :: text) ↔ isBlank c = true ∧ IsBlankText text :=
  List.forall_mem_cons

@[simp] theorem isBlankText_append : IsBlankText (text ++ more) ↔ IsBlankText text ∧ IsBlankText more :=
  List.forall_mem_append

end

/-- Which texts between quotes stand for the given characters. -/
inductive SpellsText : List Char → List Char → Prop
  | nil : SpellsText [] []
  /-- Most characters stand for themselves. -/
  | plain {c : Char} {cs text : List Char} (hcontrol : 0x20 ≤ c.toNat) (hquote : c ≠ '"')
      (hslash : c ≠ '\\') (h : SpellsText cs text) : SpellsText (c :: cs) (c :: text)
  /-- An escape of one letter. -/
  | letter {e c : Char} {cs text : List Char} (he : escaped? e = some c) (h : SpellsText cs text) :
    SpellsText (c :: cs) ('\\' :: e :: text)
  /-- An escape by number. -/
  | unit {a b c d : Char} {unit : Nat} {cs text : List Char} (hunit : hexUnit? a b c d = some unit)
      (hhigh : isHighSurrogate unit = false) (hlow : isLowSurrogate unit = false)
      (h : SpellsText cs text) : SpellsText (Char.ofNat unit :: cs) ('\\' :: 'u' :: a :: b :: c :: d :: text)
  /-- An escape by the two numbers of a surrogate pair. -/
  | pair {a b c d a' b' c' d' : Char} {high low : Nat} {cs text : List Char}
      (hunit : hexUnit? a b c d = some high) (hunit' : hexUnit? a' b' c' d' = some low)
      (hhigh : isHighSurrogate high = true) (hlow : isLowSurrogate low = true) (h : SpellsText cs text) :
    SpellsText (joinSurrogates high low :: cs)
      ('\\' :: 'u' :: a :: b :: c :: d :: '\\' :: 'u' :: a' :: b' :: c' :: d' :: text)

/-- What stands in front of an item or a member: blanks, and a comma among them unless it is the first. -/
inductive Separates : (isFirst : Bool) → List Char → Prop
  | first {blanks : List Char} (h : IsBlankText blanks) : Separates true blanks
  | next {before after : List Char} (h : IsBlankText before) (h' : IsBlankText after) :
    Separates false (before ++ ',' :: after)

/-- What a stretch of text can stand for: a value, or the items of a list or the members of an object that
are still to come, with the closing bracket. -/
inductive Phrase where
  | value (value : Json)
  | items (isFirst : Bool) (items : List Json)
  | members (isFirst : Bool) (members : List (String × Json))

/-- Which texts stand for a phrase. A text ends with its phrase; a value and a separator begin with
their text. -/
inductive Spells : Phrase → List Char → Prop
  | isTrue : Spells (.value (.boolean true)) "true".toList
  | isFalse : Spells (.value (.boolean false)) "false".toList
  | numeral (n : Nat) : Spells (.value (.numeral n)) (Nat.toDigits 10 n)
  | quoted {value : String} {text : List Char} (h : SpellsText value.toList text) :
    Spells (.value (.quoted value)) ('"' :: (text ++ ['"']))
  | array {items : List Json} {text : List Char} (h : Spells (.items true items) text) :
    Spells (.value (.array items)) ('[' :: text)
  | object {members : List (String × Json)} {text : List Char} (h : Spells (.members true members) text) :
    Spells (.value (.object members)) ('\x7b' :: text)
  | noItem {isFirst : Bool} {blanks : List Char} (h : IsBlankText blanks) :
    Spells (.items isFirst []) (blanks ++ [']'])
  | item {isFirst : Bool} {item : Json} {items : List Json} {separator text rest : List Char}
      (hseparator : Separates isFirst separator) (h : Spells (.value item) text)
      (hrest : Spells (.items false items) rest) :
    Spells (.items isFirst (item :: items)) (separator ++ (text ++ rest))
  | noMember {isFirst : Bool} {blanks : List Char} (h : IsBlankText blanks) :
    Spells (.members isFirst []) (blanks ++ ['\x7d'])
  | member {isFirst : Bool} {name : String} {value : Json} {members : List (String × Json)}
      {separator key before after text rest : List Char} (hseparator : Separates isFirst separator)
      (hname : SpellsText name.toList key) (hbefore : IsBlankText before) (hafter : IsBlankText after)
      (h : Spells (.value value) text) (hrest : Spells (.members false members) rest) :
    Spells (.members isFirst ((name, value) :: members))
      (separator ++ '"' :: (key ++ '"' :: (before ++ ':' :: (after ++ (text ++ rest)))))

/-- The text stands for the value, and has blanks neither in front nor behind. -/
def SpelledBy (value : Json) (text : String) : Prop := Spells (.value value) text.toList

end Unstrip.Json
