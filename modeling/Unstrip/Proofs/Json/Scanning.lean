import Unstrip.Json.Grammar
import Unstrip.Json.Reader

/-!
# Scanners read what is spelled

Each part of a text that the grammar allows is read by its scanner, which stops where the part ends.
What follows a value decides where a number ends, so it may not go on the number (`EndsValue`).
-/

namespace Unstrip.Json

variable {blanks separator text rest : List Char} {c : Char} {isFirst : Bool}

/-! ## Blanks -/

@[simp] theorem skipBlanks_append (h : IsBlankText blanks) (text : List Char) :
    skipBlanks (blanks ++ text) = skipBlanks text :=
  List.dropWhile_append_of_pos h

@[simp] theorem skipBlanks_cons (h : isBlank c = false) : skipBlanks (c :: text) = c :: text :=
  List.dropWhile_cons_of_neg (by simp [h])

@[simp] theorem skipBlanks_of_isBlankText (h : IsBlankText blanks) : skipBlanks blanks = [] := by
  simpa [skipBlanks] using skipBlanks_append h []

theorem isBlank_iff : isBlank c = true ↔ c ∈ [' ', '\t', '\n', '\r'] := by
  simp [isBlank, or_assoc]

/-! ## Where values begin and end -/

/-- The character can stand at the front of a value. -/
def BeginsValue (c : Char) : Prop := c ∈ ['t', 'f', '"', '[', '\x7b'] ∨ c.isDigit = true

/-- What follows a value: nothing, a blank, or a sign of the list or the object around it. -/
def EndsValue (rest : List Char) : Prop :=
  ∀ c ∈ rest.head?, isBlank c = true ∨ c ∈ [',', ']', '\x7d']

theorem BeginsValue.not_isBlank (h : BeginsValue c) : isBlank c = false := by
  have hall : ∀ c ∈ [' ', '\t', '\n', '\r'], ¬ BeginsValue c := by simp [BeginsValue]
  rw [Bool.eq_false_iff, Ne, isBlank_iff]
  exact fun hblank => hall c hblank h

theorem BeginsValue.not_mem_signs (h : BeginsValue c) : c ∉ [',', ']', '\x7d'] := by
  have hall : ∀ c ∈ [',', ']', '\x7d'], ¬ BeginsValue c := by simp [BeginsValue]
  exact fun hsign => hall c hsign h

theorem isDigit_of_mem_decimal {n : Nat} (h : c ∈ Nat.toDigits 10 n) : c.isDigit = true :=
  Nat.isDigit_of_mem_toDigits (by decide) (by decide) h

theorem toDigits_eq_cons (n : Nat) : ∃ c tail, Nat.toDigits 10 n = c :: tail ∧ c.isDigit = true := by
  obtain ⟨c, tail, htail⟩ := List.exists_cons_of_ne_nil (@Nat.toDigits_ne_nil n 10)
  exact ⟨c, tail, htail, isDigit_of_mem_decimal (htail ▸ List.mem_cons_self)⟩

theorem Spells.beginsValue {value : Json} (h : Spells (.value value) text) :
    ∃ c tail, text = c :: tail ∧ BeginsValue c := by
  cases h with
  | isTrue | isFalse | quoted | array | object => exact ⟨_, _, rfl, .inl (by decide)⟩
  | numeral n =>
    obtain ⟨c, tail, htail, hc⟩ := toDigits_eq_cons n
    exact ⟨c, tail, htail, .inr hc⟩

@[simp] theorem endsValue_nil : EndsValue [] := by simp [EndsValue]

theorem endsValue_cons (h : c ∈ [',', ']', '\x7d']) : EndsValue (c :: rest) := by
  rintro _ ⟨rfl⟩
  exact .inr h

theorem endsValue_append (h : IsBlankText blanks) (hrest : EndsValue rest) :
    EndsValue (blanks ++ rest) := by
  cases blanks with
  | nil => exact hrest
  | cons blank blanks =>
    rintro _ ⟨rfl⟩
    exact .inl (h blank List.mem_cons_self)

/-! ## Texts -/

section
variable {a b c d e : Char}

@[simp] theorem scanString_quote (text : List Char) : scanString ('"' :: text) = .ok ([], text) := by
  rw [scanString.eq_def]
  rfl

theorem scanString_plain (hcontrol : 0x20 ≤ c.toNat) (hquote : c ≠ '"') (hslash : c ≠ '\\') :
    scanString (c :: text) = pushChar c (scanString text) := by
  rw [scanString.eq_def]
  simp [hquote, hslash, Nat.not_lt.2 hcontrol]

theorem scanString_letter (h : escaped? e = some c) :
    scanString ('\\' :: e :: text) = pushChar c (scanString text) := by
  have hu : e ≠ 'u' := by
    rintro rfl
    cases h
  rw [scanString.eq_def]
  simp [hu, h]

theorem scanString_unit {unit : Nat} (hunit : hexUnit? a b c d = some unit)
    (hhigh : isHighSurrogate unit = false) (hlow : isLowSurrogate unit = false) :
    scanString ('\\' :: 'u' :: a :: b :: c :: d :: text) =
      pushChar (Char.ofNat unit) (scanString text) := by
  rw [scanString.eq_def]
  simp [hunit, hhigh, hlow]

theorem scanString_pair {a' b' c' d' : Char} {high low : Nat} (hunit : hexUnit? a b c d = some high)
    (hunit' : hexUnit? a' b' c' d' = some low) (hhigh : isHighSurrogate high = true)
    (hlow : isLowSurrogate low = true) :
    scanString ('\\' :: 'u' :: a :: b :: c :: d :: '\\' :: 'u' :: a' :: b' :: c' :: d' :: text) =
      pushChar (joinSurrogates high low) (scanString text) := by
  have hnot : isLowSurrogate high = false := by
    simp only [isHighSurrogate, isLowSurrogate, Bool.and_eq_true, Bool.and_eq_false_iff,
      decide_eq_true_eq, decide_eq_false_iff_not] at hhigh ⊢
    omega
  rw [scanString.eq_def]
  simp [hunit, hunit', hhigh, hnot, hlow]

end

/-- A text in quotes is read up to its closing quote. -/
theorem scanString_of_spellsText {cs : List Char} (h : SpellsText cs text) (rest : List Char) :
    scanString (text ++ '"' :: rest) = .ok (cs, rest) := by
  induction h with
  | nil => exact scanString_quote rest
  | plain hcontrol hquote hslash _ ih =>
    rw [List.cons_append, scanString_plain hcontrol hquote hslash, ih, pushChar_ok]
  | letter he _ ih => rw [List.cons_append, List.cons_append, scanString_letter he, ih, pushChar_ok]
  | unit hunit hhigh hlow _ ih =>
    simp only [List.cons_append, scanString_unit hunit hhigh hlow, ih, pushChar_ok]
  | pair hunit hunit' hhigh hlow _ ih =>
    simp only [List.cons_append, scanString_pair hunit hunit' hhigh hlow, ih, pushChar_ok]

theorem readName_of_spellsText {name : String} (h : SpellsText name.toList text) (rest : List Char) :
    readName ('"' :: (text ++ '"' :: rest)) = .ok (name, rest) := by
  simp [readName, scanString_of_spellsText h, bind, Except.bind, pure, Except.pure]

theorem readColon_append (h : IsBlankText blanks) (rest : List Char) :
    readColon (blanks ++ ':' :: rest) = .ok ((), rest) := by
  rw [readColon, skipBlanks_append h, skipBlanks_cons (by decide)]
  rfl

/-! ## Numbers -/

theorem digitValue?_of_isDigit (h : c.isDigit = true) : digitValue? c = some (c.toNat - '0'.toNat) := by
  rw [Char.isDigit, Bool.and_eq_true, decide_eq_true_iff, decide_eq_true_iff] at h
  exact if_pos h

theorem digitValue?_of_not_isDigit (h : c.isDigit = false) : digitValue? c = none := by
  refine if_neg fun hdigit => Bool.eq_false_iff.1 h ?_
  rw [Char.isDigit, Bool.and_eq_true, decide_eq_true_iff, decide_eq_true_iff]
  exact hdigit

/-- The digits of a number are read to their end if no other digit follows. -/
theorem spanDigits_append {digits : List Char} (h : ∀ c ∈ digits, c.isDigit = true)
    (hrest : ∀ c ∈ rest.head?, c.isDigit = false) :
    spanDigits (digits ++ rest) = (digits.map fun c => c.toNat - '0'.toNat, rest) := by
  induction digits with
  | nil =>
    cases rest with
    | nil => rfl
    | cons c rest => simp [spanDigits, digitValue?_of_not_isDigit (hrest c rfl)]
  | cons c digits ih =>
    have ih := ih fun c hc => h c (List.mem_cons_of_mem _ hc)
    simp [spanDigits, digitValue?_of_isDigit (h c List.mem_cons_self), ih]

def digitsOf (n : Nat) : List Nat := (Nat.toDigits 10 n).map fun c => c.toNat - '0'.toNat

theorem ofDigits_digitsOf (n : Nat) : ofDigits (digitsOf n) = n := by
  have h : Nat.ofDigitChars 10 (Nat.toDigits 10 n) 0 = n := Nat.ofDigitChars_toDigits (by decide) (by decide)
  simpa [ofDigits, digitsOf, Nat.ofDigitChars, List.foldl_map, Nat.mul_comm] using h

/-- Only zero begins with a zero. -/
theorem head_toDigits_ne_zero {n : Nat} (h : 0 < n) :
    ∀ c ∈ (Nat.toDigits 10 n).head?, c.toNat - '0'.toNat ≠ 0 := by
  induction n using Nat.strongRecOn with
  | ind n ih =>
    by_cases hsmall : n < 10
    · rw [Nat.toDigits_of_lt_base hsmall]
      rintro _ ⟨rfl⟩
      rw [Nat.toNat_digitChar_of_lt_ten hsmall]
      simpa using Nat.ne_of_gt h
    · obtain ⟨c, tail, htail⟩ := List.exists_cons_of_ne_nil (@Nat.toDigits_ne_nil (n / 10) 10)
      have ih := ih (n / 10) (by omega) (by omega)
      rw [htail, List.head?_cons] at ih
      rwa [Nat.toDigits_of_base_le (by decide) (by omega), htail, List.cons_append, List.head?_cons]

/-- A number is read to its end if no other digit follows. -/
theorem scanWhole_toDigits (atEnd : Defect) (n : Nat) (hrest : ∀ c ∈ rest.head?, c.isDigit = false) :
    scanWhole atEnd (Nat.toDigits 10 n ++ rest) = .ok (digitsOf n, rest) := by
  unfold scanWhole digitsOf
  rw [spanDigits_append (fun c => isDigit_of_mem_decimal) hrest]
  rcases Nat.eq_zero_or_pos n with rfl | hn
  · rfl
  · have hhead := head_toDigits_ne_zero hn
    obtain ⟨c, tail, htail⟩ := List.exists_cons_of_ne_nil (@Nat.toDigits_ne_nil n 10)
    rw [htail] at hhead ⊢
    have hc := hhead c rfl
    rw [List.map_cons]
    generalize c.toNat - '0'.toNat = d at hc ⊢
    cases d with
    | zero => contradiction
    | succ d => rfl

/-- What ends a value does not go on a number. -/
theorem EndsValue.not_isDigit (h : EndsValue rest) : ∀ c ∈ rest.head?, c.isDigit = false := by
  have hblanks : ∀ c ∈ [' ', '\t', '\n', '\r'], c.isDigit = false := by simp
  have hsigns : ∀ c ∈ [',', ']', '\x7d'], c.isDigit = false := by simp
  intro c hc
  rcases h c hc with h | h
  · exact hblanks c (isBlank_iff.1 h)
  · exact hsigns c h

theorem scanFraction_of_endsValue (atEnd : Defect) (h : EndsValue rest) :
    scanFraction atEnd rest = .ok (none, rest) := by
  have hdot : ∀ c ∈ rest.head?, c ≠ '.' := by
    rintro c hc rfl
    exact absurd (h '.' hc) (by decide)
  unfold scanFraction
  split
  · exact absurd rfl (hdot '.' rfl)
  · rfl

theorem scanExponent_of_endsValue (atEnd : Defect) (h : EndsValue rest) :
    scanExponent atEnd rest = .ok (none, rest) := by
  unfold scanExponent
  split
  · rename_i c rest
    rw [if_neg]
    rintro (rfl | rfl)
    · exact absurd (h 'e' rfl) (by decide)
    · exact absurd (h 'E' rfl) (by decide)
  · rfl

theorem pushWhole_of_lt {significand : Nat} {digits : List Nat}
    (h : digits.foldl (fun n d => n * 10 + d) significand < exactLimit) :
    Decimal.pushWhole significand digits = ⟨digits.foldl (fun n d => n * 10 + d) significand, 0⟩ := by
  have hle : ∀ (digits : List Nat) (n : Nat), n ≤ digits.foldl (fun n d => n * 10 + d) n := by
    intro digits
    induction digits with
    | nil => exact fun n => Nat.le_refl n
    | cons d digits ih => exact fun n => Nat.le_trans (by omega) (ih (n * 10 + d))
  induction digits generalizing significand with
  | nil => rfl
  | cons d digits ih =>
    rw [List.foldl_cons] at h ⊢
    rw [Decimal.pushWhole, if_pos (Nat.lt_of_le_of_lt (hle digits _) h), ih h]

/-- A number of at most 64 bits is read exactly. -/
theorem scanNumber_toDigits {n : Nat} (h : n < exactLimit) (hrest : EndsValue rest) :
    scanNumber (Nat.toDigits 10 n ++ rest) = .ok (some n, rest) := by
  have hpush : Decimal.pushWhole 0 (digitsOf n) = ⟨n, 0⟩ := by
    have hvalue := ofDigits_digitsOf n
    rw [ofDigits] at hvalue
    rw [pushWhole_of_lt (hvalue.symm ▸ h), hvalue]
  simp [scanNumber, scanWhole_toDigits _ n hrest.not_isDigit, scanFraction_of_endsValue _ hrest,
    scanExponent_of_endsValue _ hrest, hpush, Decimal.pushFraction, bind, Except.bind, pure, Except.pure]

theorem readNumeral_toDigits (n : Nat) (hrest : EndsValue rest) :
    readNumeral (Nat.toDigits 10 n ++ rest) = .ok (n, rest) := by
  simp [readNumeral, scanWhole_toDigits _ n hrest.not_isDigit, ofDigits_digitsOf, bind, Except.bind, pure,
    Except.pure]

/-! ## Lists and objects -/

/-- A text that is left has fuel for one more turn. -/
theorem exists_succ_of_length_le {n : Nat} (h : text.length ≤ n) (hne : text ≠ []) : ∃ m, n = m + 1 :=
  Nat.exists_eq_succ_of_ne_zero fun hzero => hne (List.eq_nil_of_length_eq_zero (by omega))

theorem item_append (separator tail more rest : List Char) (c : Char) :
    separator ++ (c :: tail ++ more) ++ rest = separator ++ c :: (tail ++ (more ++ rest)) := by
  simp

theorem member_append (separator key before after text more rest : List Char) :
    separator ++ '"' :: (key ++ '"' :: (before ++ ':' :: (after ++ (text ++ more)))) ++ rest =
      separator ++ '"' :: (key ++ '"' :: (before ++ ':' :: (after ++ (text ++ (more ++ rest))))) := by
  simp

theorem Separates.endsValue (h : Separates false separator) (text : List Char) :
    EndsValue (separator ++ text) := by
  cases h with
  | @next before after h h' =>
    rw [List.append_assoc]
    exact endsValue_append h (endsValue_cons (by decide))

/-- The items that are still to come end the value in front of them. -/
theorem Spells.endsValue_items {items : List Json} (h : Spells (.items false items) text)
    (rest : List Char) : EndsValue (text ++ rest) := by
  cases h with
  | noItem h =>
    rw [List.append_assoc]
    exact endsValue_append h (endsValue_cons (by decide))
  | item hseparator h hrest =>
    rw [List.append_assoc]
    exact hseparator.endsValue _

/-- The members that are still to come end the value in front of them. -/
theorem Spells.endsValue_members {members : List (String × Json)}
    (h : Spells (.members false members) text) (rest : List Char) : EndsValue (text ++ rest) := by
  cases h with
  | noMember h =>
    rw [List.append_assoc]
    exact endsValue_append h (endsValue_cons (by decide))
  | member hseparator hname hbefore hafter h hrest =>
    rw [List.append_assoc]
    exact hseparator.endsValue _

theorem nextItem?_end (h : IsBlankText blanks) : nextItem? isFirst (blanks ++ ']' :: rest) = .ok none := by
  unfold nextItem?
  rw [skipBlanks_append h, skipBlanks_cons (by decide)]
  rfl

theorem nextItem?_item (h : Separates isFirst separator) (hc : BeginsValue c) :
    nextItem? isFirst (separator ++ c :: text) = .ok (some (c :: text)) := by
  have hsign := hc.not_mem_signs
  have hblank := hc.not_isBlank
  cases h with
  | first h =>
    unfold nextItem?
    rw [skipBlanks_append h, skipBlanks_cons hblank]
    split <;> simp_all
  | next h h' =>
    unfold nextItem?
    rw [List.append_assoc, skipBlanks_append h, List.cons_append, skipBlanks_cons (by decide)]
    simp only [Bool.false_eq_true, if_false]
    rw [skipBlanks_append h', skipBlanks_cons hblank]
    split <;> simp_all

section
variable {σ : Type} {fields : List (RecordField σ)} {fuel : Nat} {draft : σ}

theorem readMembers_end (h : IsBlankText blanks) :
    readMembers fields (fuel + 1) isFirst draft (blanks ++ '\x7d' :: rest) = .ok (draft, '\x7d' :: rest) := by
  rw [readMembers, skipBlanks_append h, skipBlanks_cons (by decide)]
  rfl

/-- A member is read, and then those behind it. -/
theorem readMembers_member (h : Separates isFirst separator) :
    readMembers fields (fuel + 1) isFirst draft (separator ++ '"' :: text) =
      readMember fields draft ('"' :: text) >>= fun (draft, text) =>
        readMembers fields fuel false draft text := by
  cases h with
  | first h =>
    rw [readMembers, skipBlanks_append h, skipBlanks_cons (by decide)]
    rfl
  | next h h' =>
    rw [readMembers, List.append_assoc, skipBlanks_append h, List.cons_append, skipBlanks_cons (by decide)]
    simp only [Bool.false_eq_true, if_false]
    rw [skipBlanks_append h', skipBlanks_cons (by decide)]

end

section
variable {α : Type} {close : Char} {read : Scanner α} {fuel : Nat}

theorem readSequence_end (h : IsBlankText blanks) (hclose : isBlank close = false) :
    readSequence close read (fuel + 1) isFirst (blanks ++ close :: rest) = .ok ([], rest) := by
  rw [readSequence, skipBlanks_append h, skipBlanks_cons hclose]
  exact if_pos rfl

/-- An item is read, and then those behind it. -/
theorem readSequence_item (h : Separates isFirst separator) (hc : BeginsValue c)
    (hclose : close ∈ [']', '\x7d']) :
    readSequence close read (fuel + 1) isFirst (separator ++ c :: text) =
      read (c :: text) >>= fun (item, text) =>
        readSequence close read fuel false text >>= fun (items, text) => pure (item :: items, text) := by
  have hne : c ≠ close := fun heq => hc.not_mem_signs (List.mem_cons_of_mem _ (heq ▸ hclose))
  cases h with
  | first h =>
    rw [readSequence, skipBlanks_append h, skipBlanks_cons hc.not_isBlank]
    simp [hne]
  | next h h' =>
    have hcomma : ',' ≠ close := by
      rintro rfl
      exact absurd hclose (by decide)
    rw [readSequence, List.append_assoc, skipBlanks_append h, List.cons_append, skipBlanks_cons (by decide)]
    simp only [if_neg hcomma, Bool.not_false, Bool.true_and, ne_eq, not_true_eq_false, decide_false,
      Bool.false_eq_true, if_false]
    rw [skipBlanks_append h', skipBlanks_cons hc.not_isBlank]

end

end Unstrip.Json
