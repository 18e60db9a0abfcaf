import Unstrip.Proofs.Json.Scanning

/-!
# No text stands for two values

`ofText` reads every spelling of a value as that value (`ofText_of_spelledBy`). Its result is a function of
the text, so a text stands for at most one value (`SpelledBy.unique`).
-/

namespace Unstrip.Json

variable {text : List Char} {value : Json} {phrase : Phrase}

/-- The text is read as the phrase if there is fuel for each of its characters, both for the values inside
of values and for the turns of a list or an object. -/
def IsReadAs (text : List Char) : Phrase → Prop
  | .value value => ∀ fuel, text.length ≤ fuel → ∀ {blanks rest}, IsBlankText blanks → EndsValue rest →
    readValue fuel (blanks ++ (text ++ rest)) = .ok (value, rest)
  | .items isFirst items => ∀ fuel turns, text.length ≤ fuel → text.length ≤ turns → ∀ rest,
    readSequence ']' (readValue fuel) turns isFirst (text ++ rest) = .ok (items, rest)
  | .members isFirst members => ∀ fuel turns, text.length ≤ fuel → text.length ≤ turns → ∀ rest,
    readSequence '\x7d' (readEntry (readValue fuel)) turns isFirst (text ++ rest) = .ok (members, rest)

theorem readValue_digit {c : Char} {blanks rest : List Char} {fuel n : Nat} (hblanks : IsBlankText blanks)
    (hc : c.isDigit = true) (h : readNumeral (c :: text) = .ok (n, rest)) :
    readValue (fuel + 1) (blanks ++ c :: text) = .ok (.numeral n, rest) := by
  have hblank : isBlank c = false := BeginsValue.not_isBlank (.inr hc)
  rw [readValue, skipBlanks_append hblanks, skipBlanks_cons hblank]
  split
  case h_7 heq =>
    cases heq
    simp only [h, bind, Except.bind, pure, Except.pure]
  all_goals simp_all

/-- Every spelling is read. -/
theorem Spells.isReadAs (h : Spells phrase text) : IsReadAs text phrase := by
  induction h with
  | isTrue | isFalse =>
    intro fuel hfuel blanks rest hblanks _
    obtain ⟨fuel, rfl⟩ := exists_succ_of_length_le hfuel (by decide)
    rw [readValue, skipBlanks_append hblanks]
    rfl
  | numeral n =>
    intro fuel hfuel blanks rest hblanks hrest
    obtain ⟨fuel, rfl⟩ := exists_succ_of_length_le hfuel Nat.toDigits_ne_nil
    obtain ⟨c, tail, htail, hc⟩ := toDigits_eq_cons n
    have hread := readNumeral_toDigits n hrest
    rw [htail, List.cons_append] at hread ⊢
    exact readValue_digit hblanks hc hread
  | @quoted value text h =>
    intro fuel hfuel blanks rest hblanks _
    obtain ⟨fuel, rfl⟩ := exists_succ_of_length_le hfuel (List.cons_ne_nil _ _)
    rw [readValue, skipBlanks_append hblanks, List.cons_append, skipBlanks_cons (by decide)]
    simp [scanString_of_spellsText h, bind, Except.bind, pure, Except.pure]
  | @array items text _ ih =>
    intro fuel hfuel blanks rest hblanks _
    obtain ⟨fuel, rfl⟩ := exists_succ_of_length_le hfuel (List.cons_ne_nil _ _)
    have hread := ih fuel (text ++ rest).length (by grind) (by grind) rest
    rw [readValue, skipBlanks_append hblanks, List.cons_append, skipBlanks_cons (by decide)]
    simp only [hread, bind, Except.bind, pure, Except.pure]
  | @object members text _ ih =>
    intro fuel hfuel blanks rest hblanks _
    obtain ⟨fuel, rfl⟩ := exists_succ_of_length_le hfuel (List.cons_ne_nil _ _)
    have hread := ih fuel (text ++ rest).length (by grind) (by grind) rest
    rw [readValue, skipBlanks_append hblanks, List.cons_append, skipBlanks_cons (by decide)]
    simp only [hread, bind, Except.bind, pure, Except.pure]
  | noItem h | noMember h =>
    intro fuel turns hfuel hturns rest
    obtain ⟨turns, rfl⟩ := exists_succ_of_length_le hturns (by simp)
    rw [List.append_assoc]
    exact readSequence_end h (by decide)
  | @item isFirst item items separator text more hseparator h hmore ih ihmore =>
    intro fuel turns hfuel hturns rest
    obtain ⟨c, tail, rfl, hc⟩ := h.beginsValue
    obtain ⟨turns, rfl⟩ := exists_succ_of_length_le hturns (by simp)
    have hread := ih fuel (by grind) isBlankText_nil (hmore.endsValue_items rest)
    have hitems := ihmore fuel turns (by grind) (by grind) rest
    rw [List.nil_append, List.cons_append] at hread
    rw [item_append, readSequence_item hseparator hc (by decide)]
    simp only [hread, hitems, bind, Except.bind, pure, Except.pure]
  | @member isFirst name value members separator key before after text more hseparator hname hbefore hafter
      h hmore ih ihmore =>
    intro fuel turns hfuel hturns rest
    obtain ⟨turns, rfl⟩ := exists_succ_of_length_le hturns (by simp)
    have hread := ih fuel (by grind) hafter (hmore.endsValue_members rest)
    have hmembers := ihmore fuel turns (by grind) (by grind) rest
    rw [member_append, readSequence_item hseparator (.inl (by decide)) (by decide)]
    simp only [readEntry, readName_of_spellsText hname, readColon_append hbefore, hread, hmembers, bind,
      Except.bind, pure, Except.pure]

/-- Every spelling of a value is read as this value, also if blanks follow. -/
theorem ofText_append {text blanks : String} (h : value.SpelledBy text)
    (hblanks : IsBlankText blanks.toList) : ofText (text ++ blanks) = .ok value := by
  have hfuel : text.toList.length ≤ (text ++ blanks).toList.length + 1 := by
    rw [String.toList_append, List.length_append]
    omega
  have hends : EndsValue blanks.toList := by
    simpa using endsValue_append hblanks endsValue_nil
  have hread := h.isReadAs _ hfuel isBlankText_nil hends
  rw [List.nil_append, ← String.toList_append] at hread
  rw [ofText, parse, hread]
  simp [skipBlanks_of_isBlankText hblanks, bind, Except.bind, pure, Except.pure]

theorem ofText_of_spelledBy {text : String} (h : value.SpelledBy text) : ofText text = .ok value := by
  have hread : ofText (text ++ "") = .ok value := ofText_append h nofun
  rwa [String.append_empty] at hread

/-- A text stands for at most one value. -/
theorem SpelledBy.unique {text : String} {other : Json} (h : value.SpelledBy text)
    (hother : other.SpelledBy text) : value = other :=
  Except.ok.inj ((ofText_of_spelledBy h).symm.trans (ofText_of_spelledBy hother))

end Unstrip.Json
