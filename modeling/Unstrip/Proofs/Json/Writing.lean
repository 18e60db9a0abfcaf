import Unstrip.Json.Grammar

/-!
# What is written stands for the value

The grammar allows blanks between the signs of a text, and the two layouts add nothing else
(`Layout.AddsBlanks`). So what a writer makes of a value stands for that value, whatever the names and
texts in it may be (`spelledBy_compact`, `spelledBy_pretty`).
-/

namespace Unstrip.Json

/-! ## Texts -/

theorem hexUnit?_hexDigit : ∀ n < 0x20, hexUnit? '0' '0' (hexDigit (n / 16)) (hexDigit n) = some n := by
  decide

/-- The characters that are escaped by one letter. -/
def lettered : List Char := ['"', '\\', '\x08', '\x0c', '\n', '\r', '\t']

theorem escapeChar_of_mem_lettered : ∀ c ∈ lettered, ∃ e ∈ ['"', '\\', 'b', 'f', 'n', 'r', 't'],
    escapeChar c = ['\\', e] ∧ escaped? e = some c := by
  simp [lettered, escapeChar, escaped?]

/-- Whichever way a character is written, it stands for itself. -/
theorem spellsText_escapeChar (c : Char) {cs text : List Char} (h : SpellsText cs text) :
    SpellsText (c :: cs) (escapeChar c ++ text) := by
  by_cases hletter : c ∈ lettered
  · obtain ⟨e, -, hescape, he⟩ := escapeChar_of_mem_lettered c hletter
    rw [hescape]
    exact .letter he h
  · simp only [lettered, List.mem_cons, List.not_mem_nil, or_false, not_or] at hletter
    obtain ⟨hquote, hslash, hbackspace, hformfeed, hnewline, hreturn, htab⟩ := hletter
    simp only [escapeChar, hquote, hslash, hbackspace, hformfeed, hnewline, hreturn, htab, if_false]
    split
    · rename_i hcontrol
      have hsurrogate : isHighSurrogate c.toNat = false ∧ isLowSurrogate c.toNat = false := by
        simp only [isHighSurrogate, isLowSurrogate, Bool.and_eq_false_iff, decide_eq_false_iff_not]
        omega
      have hunit := SpellsText.unit (hexUnit?_hexDigit _ hcontrol) hsurrogate.1 hsurrogate.2 h
      rwa [Char.ofNat_toNat] at hunit
    · rename_i hcontrol
      exact .plain (Nat.le_of_not_lt hcontrol) hquote hslash h

theorem spellsText_flatMap_escapeChar (cs : List Char) : SpellsText cs (cs.flatMap escapeChar) := by
  induction cs with
  | nil => exact .nil
  | cons c cs ih =>
    rw [List.flatMap_cons]
    exact spellsText_escapeChar c ih

/-! ## Layouts -/

/-- All that the layout adds to the signs of a text is blank. -/
structure Layout.AddsBlanks (layout : Layout) : Prop where
  colon : ∃ blanks, layout.colon.toList = ':' :: blanks ∧ IsBlankText blanks
  lineBreak : ∀ depth, IsBlankText (layout.lineBreak depth).toList

theorem addsBlanks_compactLayout : compactLayout.AddsBlanks where
  colon := ⟨[], rfl, isBlankText_nil⟩
  lineBreak := by simp [compactLayout]

theorem addsBlanks_prettyLayout : prettyLayout.AddsBlanks where
  colon := ⟨[' '], rfl, by simp [isBlank]⟩
  lineBreak := by
    intro depth c hc
    simp only [prettyLayout, String.toList_append, String.toList_ofList, List.mem_append,
      List.mem_replicate] at hc
    obtain hc | ⟨-, rfl⟩ := hc
    · obtain rfl : c = '\n' := by simpa using hc
      rfl
    · rfl

/-! ## Values -/

def textOf (pieces : List String) : List Char := pieces.flatMap String.toList

@[simp] theorem textOf_nil : textOf [] = [] := rfl

@[simp] theorem textOf_cons (piece : String) (pieces : List String) :
    textOf (piece :: pieces) = piece.toList ++ textOf pieces := rfl

@[simp] theorem textOf_append (pieces more : List String) :
    textOf (pieces ++ more) = textOf pieces ++ textOf more :=
  List.flatMap_append

section
variable {layout : Layout} (hlayout : layout.AddsBlanks)
include hlayout

theorem spells_member {isFirst : Bool} {separator text rest : List Char} {value : Json}
    {members : List (String × Json)} (name : String) (hseparator : Separates isFirst separator)
    (h : Spells (.value value) text) (hrest : Spells (.members false members) rest) :
    Spells (.members isFirst ((name, value) :: members))
      (separator ++ (quote name.toList ++ (layout.colon.toList ++ (text ++ rest)))) := by
  obtain ⟨after, hcolon, hafter⟩ := hlayout.colon
  have hname := spellsText_flatMap_escapeChar name.toList
  simpa [quote, hcolon] using Spells.member hseparator hname isBlankText_nil hafter h hrest

mutual

/-- The pieces of a value stand for it, at any depth. -/
theorem spells_pieces (depth : Nat) :
    (value : Json) → Spells (.value value) (textOf (value.pieces layout depth))
  | .boolean true => by simpa [pieces] using Spells.isTrue
  | .boolean false => by simpa [pieces] using Spells.isFalse
  | .numeral n => by simpa [pieces] using Spells.numeral n
  | .quoted value => by
    simpa [pieces, quote] using Spells.quoted (spellsText_flatMap_escapeChar value.toList)
  | .array [] => .array (.noItem isBlankText_nil)
  | .array (item :: items) => by
    have hrest := spells_itemPieces depth items
    have hitem := spells_pieces (depth + 1) item
    have hitems := Spells.item (.first (hlayout.lineBreak (depth + 1))) hitem hrest
    simpa [pieces] using Spells.array hitems
  | .object [] => .object (.noMember isBlankText_nil)
  | .object ((name, value) :: members) => by
    have hrest := spells_memberPieces depth members
    have hvalue := spells_pieces (depth + 1) value
    have hmembers := spells_member hlayout name (.first (hlayout.lineBreak (depth + 1))) hvalue hrest
    simpa [pieces] using Spells.object hmembers

/-- The pieces of the items after the first stand for them. -/
theorem spells_itemPieces (depth : Nat) : (items : List Json) →
    Spells (.items false items)
      (textOf (itemPieces layout depth items) ++ ((layout.lineBreak depth).toList ++ [']']))
  | [] => .noItem (hlayout.lineBreak depth)
  | item :: items => by
    have hrest := spells_itemPieces depth items
    have hitem := spells_pieces (depth + 1) item
    have hitems := Spells.item (.next isBlankText_nil (hlayout.lineBreak (depth + 1))) hitem hrest
    simpa [itemPieces] using hitems

/-- The pieces of the members after the first stand for them. -/
theorem spells_memberPieces (depth : Nat) : (members : List (String × Json)) →
    Spells (.members false members)
      (textOf (memberPieces layout depth members) ++ ((layout.lineBreak depth).toList ++ ['\x7d']))
  | [] => .noMember (hlayout.lineBreak depth)
  | (name, value) :: members => by
    have hrest := spells_memberPieces depth members
    have hvalue := spells_pieces (depth + 1) value
    have hmembers := spells_member hlayout name
      (.next isBlankText_nil (hlayout.lineBreak (depth + 1))) hvalue hrest
    simpa [memberPieces] using hmembers

end

theorem spelledBy_join_pieces (depth : Nat) (value : Json) :
    SpelledBy value (String.join (value.pieces layout depth)) := by
  rw [SpelledBy, String.toList_join]
  exact spells_pieces hlayout depth value

end

theorem spelledBy_compact (value : Json) : SpelledBy value value.compact :=
  spelledBy_join_pieces addsBlanks_compactLayout 0 value

theorem spelledBy_pretty (value : Json) : SpelledBy value (String.join value.prettyPieces) :=
  spelledBy_join_pieces addsBlanks_prettyLayout 0 value

end Unstrip.Json
