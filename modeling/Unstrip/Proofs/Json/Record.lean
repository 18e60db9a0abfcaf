import Unstrip.Proofs.Json.Scanning
import Unstrip.Proofs.Reading

/-!
# Readers of records and lists

Two things are said about a reader. It takes every spelling of a value to the same result (`Reads`), and
whatever it takes, its result has a property (`Ensures`). Both pass from the fields to the record and from
the items to the list.
-/

namespace Unstrip.Json

/-! ## Every spelling is read -/

/-- The scanner reads the value as the given result, however the value is spelled, and stops behind it. -/
def Reads {α : Type} (read : Scanner α) (value : Json) (result : α) : Prop :=
  ∀ ⦃blanks text rest : List Char⦄, IsBlankText blanks → Spells (.value value) text → EndsValue rest →
    read (blanks ++ (text ++ rest)) = .ok (result, rest)

theorem reads_readText (value : String) : Reads readText (.quoted value) value := by
  intro blanks text rest hblanks h _
  cases h with
  | @quoted _ text h =>
    rw [readText, skipBlanks_append hblanks, List.cons_append, skipBlanks_cons (by decide)]
    simp [scanString_of_spellsText h, bind, Except.bind, pure, Except.pure]

theorem reads_readNumber {n : Nat} (hn : n < exactLimit) : Reads readNumber (.numeral n) n := by
  intro blanks text rest hblanks h hrest
  cases h with
  | numeral =>
    obtain ⟨c, tail, htail, hc⟩ := toDigits_eq_cons n
    have hblank : isBlank c = false := BeginsValue.not_isBlank (.inr hc)
    have hnumber := scanNumber_toDigits hn hrest
    rw [htail, List.cons_append] at hnumber ⊢
    rw [readNumber, skipBlanks_append hblanks, skipBlanks_cons hblank]
    split
    · simp_all
    · simp_all [bind, Except.bind, pure, Except.pure]
    · simp_all

section
variable {α : Type} {read : Scanner α} {value : Json} {result : α}

theorem Reads.readOption (h : Reads read value result) : Reads (readOption read) value (some result) := by
  intro blanks text rest hblanks hspells hrest
  obtain ⟨c, tail, rfl, hc⟩ := hspells.beginsValue
  have hread := h isBlankText_nil hspells hrest
  rw [List.nil_append, List.cons_append] at hread
  rw [List.cons_append, Json.readOption, skipBlanks_append hblanks, skipBlanks_cons hc.not_isBlank]
  split
  · exact absurd hc (by simp_all [BeginsValue])
  · rw [hread]
    rfl

/-- A result may be put into something else. -/
theorem Reads.map {β : Type} (h : Reads read value result) (f : α → β) :
    Reads (fun text => do
      let (result, text) ← read text
      return (f result, text)) value (f result) := by
  intro blanks text rest hblanks hspells hrest
  simp only [h hblanks hspells hrest, bind, Except.bind, pure, Except.pure]

theorem Reads.parse (h : Reads read value result) {text : String} (htext : SpelledBy value text) :
    parse read text = .ok result := by
  have hread := h isBlankText_nil htext endsValue_nil
  rw [List.nil_append, List.append_nil] at hread
  rw [Json.parse, hread]
  rfl

/-- Items are read one after the other, and what is left is the end of their list. -/
theorem readItems_of_spells {values : List α} {encode : α → Json}
    (h : ∀ value ∈ values, Reads read (encode value) value) {isFirst : Bool} {text : List Char}
    (hspells : Spells (.items isFirst (values.map encode)) text) {fuel : Nat}
    (hfuel : text.length ≤ fuel) (rest : List Char) :
    ∃ left, readItems read fuel isFirst (text ++ rest) = .ok (values, left) ∧
      endList left = .ok ((), rest) := by
  induction values generalizing isFirst text fuel with
  | nil =>
    cases hspells with
    | @noItem _ blanks hblanks =>
      obtain ⟨fuel, rfl⟩ := exists_succ_of_length_le hfuel (by simp)
      refine ⟨blanks ++ ']' :: rest, ?_, ?_⟩
      · rw [List.append_assoc, List.singleton_append, readItems, nextItem?_end hblanks]
        rfl
      · rw [endList, skipBlanks_append hblanks, skipBlanks_cons (by decide)]
        rfl
  | cons value values ih =>
    rw [List.map_cons] at hspells
    cases hspells with
    | @item _ _ _ separator text more hseparator hvalue hmore =>
      obtain ⟨c, tail, rfl, hc⟩ := hvalue.beginsValue
      obtain ⟨fuel, rfl⟩ := exists_succ_of_length_le hfuel (by simp)
      have hread := h value List.mem_cons_self isBlankText_nil hvalue (hmore.endsValue_items rest)
      rw [List.nil_append, List.cons_append] at hread
      have hfuel : more.length ≤ fuel := by grind
      obtain ⟨left, hitems, hend⟩ :=
        ih (fun other hother => h other (List.mem_cons_of_mem _ hother)) hmore hfuel
      refine ⟨left, ?_, hend⟩
      rw [item_append, readItems, nextItem?_item hseparator hc]
      simp only [hread, hitems, bind, Except.bind, pure, Except.pure]

/-- A list is read if its items are. -/
theorem reads_readList {values : List α} {encode : α → Json}
    (h : ∀ value ∈ values, Reads read (encode value) value) :
    Reads (readList read) (.array (values.map encode)) values := by
  intro blanks text rest hblanks hspells _
  cases hspells with
  | @array _ text hitems =>
    have hfuel : text.length ≤ (text ++ rest).length + 1 := by grind
    obtain ⟨left, hread, hend⟩ := readItems_of_spells h hitems hfuel rest
    rw [readList, skipBlanks_append hblanks, List.cons_append, skipBlanks_cons (by decide)]
    simp only [hread, hend, bind, Except.bind, pure, Except.pure]

end

/-- One field is read into the draft, however its value is spelled. -/
structure RecordField.Takes {σ : Type} (field : RecordField σ) (value : Json) (draft draft' : σ) : Prop where
  isSet : field.isSet draft = false
  read : Reads (field.read draft) value draft'

/-- Each member goes to the field of its name. -/
inductive Fills {σ : Type} (fields : List (RecordField σ)) : σ → List (String × Json) → σ → Prop
  | nil {draft : σ} : Fills fields draft [] draft
  | cons {draft draft' draft'' : σ} {field : RecordField σ} {name : String} {value : Json}
      {members : List (String × Json)} (hfield : fields.find? (·.key == name) = some field)
      (htakes : field.Takes value draft draft') (h : Fills fields draft' members draft'') :
    Fills fields draft ((name, value) :: members) draft''

section
variable {σ : Type} {fields : List (RecordField σ)} {draft draft' : σ} {members : List (String × Json)}

theorem readMember_of_takes {field : RecordField σ} {name : String} {value : Json}
    (hfield : fields.find? (·.key == name) = some field) (htakes : field.Takes value draft draft')
    {key before after text rest : List Char} (hname : SpellsText name.toList key)
    (hbefore : IsBlankText before) (hafter : IsBlankText after) (h : Spells (.value value) text)
    (hrest : EndsValue rest) :
    readMember fields draft ('"' :: (key ++ '"' :: (before ++ ':' :: (after ++ (text ++ rest))))) =
      .ok (draft', rest) := by
  have hread := htakes.read hafter h hrest
  simp [readMember, readName_of_spellsText hname, hfield, htakes.isSet, readColon_append hbefore, hread, bind,
    Except.bind]

/-- Members are read one after the other, up to the end of their object. -/
theorem Fills.readMembers (hfills : Fills fields draft members draft') {isFirst : Bool} {text : List Char}
    (hspells : Spells (.members isFirst members) text) {fuel : Nat} (hfuel : text.length ≤ fuel)
    (rest : List Char) :
    readMembers fields fuel isFirst draft (text ++ rest) = .ok (draft', '\x7d' :: rest) := by
  induction hfills generalizing isFirst text fuel with
  | nil =>
    cases hspells with
    | @noMember _ blanks hblanks =>
      obtain ⟨fuel, rfl⟩ := exists_succ_of_length_le hfuel (by simp)
      rw [List.append_assoc]
      exact readMembers_end hblanks
  | cons hfield htakes _ ih =>
    cases hspells with
    | @member _ _ _ _ separator key before after text more hseparator hname hbefore hafter hvalue hmore =>
      obtain ⟨fuel, rfl⟩ := exists_succ_of_length_le hfuel (by simp)
      have hfuel : more.length ≤ fuel := by grind
      have hends := hmore.endsValue_members rest
      have hmember := readMember_of_takes hfield htakes hname hbefore hafter hvalue hends
      rw [member_append, readMembers_member hseparator, hmember]
      exact ih hmore hfuel

/-- A record is read if its members fill a draft that can be finished. -/
theorem reads_readRecord {α : Type} {finish : σ → Option α} {result : α}
    (hfills : Fills fields draft members draft') (hfinish : finish draft' = some result) :
    Reads (readRecord fields draft finish) (.object members) result := by
  intro blanks text rest hblanks hspells _
  cases hspells with
  | @object _ text hmembers =>
    have hfuel : text.length ≤ (text ++ rest).length + 1 := by grind
    have hread := hfills.readMembers hmembers hfuel rest
    rw [readRecord, skipBlanks_append hblanks, List.cons_append, skipBlanks_cons (by decide)]
    simp only [hread, finishRecord, hfinish, endObject, bind, Except.bind, pure, Except.pure]
    rw [skipBlanks_cons (by decide)]
    rfl

end

/-! ## What is read -/

/-- All that the scanner reads has the property. -/
def Ensures {α : Type} (read : Scanner α) (P : α → Prop) : Prop :=
  ∀ ⦃text rest : List Char⦄ ⦃value : α⦄, read text = .ok (value, rest) → P value

theorem pushWhole_lt {significand : Nat} (h : significand < exactLimit) (digits : List Nat) :
    (Decimal.pushWhole significand digits).significand < exactLimit := by
  induction digits generalizing significand with
  | nil => exact h
  | cons d digits ih =>
    rw [Decimal.pushWhole]
    split
    · rename_i hfits
      exact ih hfits
    · exact h

theorem pushFraction_lt {number : Decimal} (h : number.significand < exactLimit) (digits : List Nat) :
    (number.pushFraction digits).significand < exactLimit := by
  induction digits generalizing number with
  | nil => exact h
  | cons d digits ih =>
    rw [Decimal.pushFraction]
    split
    · rename_i hfits
      exact ih hfits
    · exact h

/-- A number that is read exactly has at most 64 bits. -/
theorem ensures_scanNumber : Ensures scanNumber fun number => ∀ n ∈ number, n < exactLimit := by
  rintro text rest number h n rfl
  simp only [scanNumber, bind_eq_ok_iff] at h
  obtain ⟨⟨whole, _⟩, -, ⟨decimals, _⟩, -, ⟨power, _⟩, -, h⟩ := h
  split at h
  · obtain ⟨⟨rfl⟩, -⟩ := Prod.mk.inj (pure_eq_ok_iff.1 h)
    exact pushFraction_lt (pushWhole_lt (by decide) whole) _
  · split at h
    · cases h
    · cases h

theorem throw_ne_ok {α : Type} (defect : Defect) (result : α) :
    (throw defect : Except Defect α) ≠ .ok result :=
  nofun

/-- A value that stands where another was wanted is refused. -/
theorem unsuitableValue_ne_ok {α : Type} (text : List Char) (result : α × List Char) :
    unsuitableValue text ≠ .ok result := by
  unfold unsuitableValue
  split
  case h_9 =>
    split
    · simp [bind_eq_ok_iff, throw_ne_ok]
    · nofun
  all_goals simp [bind_eq_ok_iff, throw_ne_ok]

theorem ensures_readNumber : Ensures readNumber (· < exactLimit) := by
  intro text rest n h
  unfold readNumber at h
  split at h
  · simp [bind_eq_ok_iff, throw_ne_ok] at h
  · split at h
    · obtain ⟨⟨number, left⟩, hscan, h⟩ := bind_eq_ok_iff.1 h
      split at h
      · rename_i m _ heq
        obtain ⟨rfl, -⟩ := Prod.mk.inj (pure_eq_ok_iff.1 h)
        obtain ⟨rfl, -⟩ := Prod.mk.inj heq
        exact ensures_scanNumber hscan n rfl
      · cases h
    · exact absurd h (unsuitableValue_ne_ok _ _)
  · cases h

section
variable {α : Type} {read : Scanner α} {P : α → Prop}

theorem Ensures.map {β : Type} {Q : β → Prop} (h : Ensures read P) (f : α → β)
    (hf : ∀ value, P value → Q (f value)) : Ensures (fun text => do
      let (result, text) ← read text
      return (f result, text)) Q := by
  intro text rest value hread
  obtain ⟨⟨other, _⟩, hother, hread⟩ := bind_eq_ok_iff.1 hread
  obtain ⟨rfl, -⟩ := Prod.mk.inj (pure_eq_ok_iff.1 hread)
  exact hf other (h hother)

theorem Ensures.readOption (h : Ensures read P) :
    Ensures (readOption read) fun result => ∀ value ∈ result, P value := by
  rintro text rest _ hread value rfl
  unfold Json.readOption at hread
  split at hread
  · obtain ⟨_, -, hread⟩ := bind_eq_ok_iff.1 hread
    cases hread
  · obtain ⟨⟨other, left⟩, hvalue, hread⟩ := bind_eq_ok_iff.1 hread
    obtain ⟨⟨rfl⟩, -⟩ := Prod.mk.inj (pure_eq_ok_iff.1 hread)
    exact h hvalue

theorem Ensures.readItems (h : Ensures read P) (fuel : Nat) (isFirst : Bool) :
    Ensures (readItems read fuel isFirst) fun items => ∀ item ∈ items, P item := by
  induction fuel generalizing isFirst with
  | zero => nofun
  | succ fuel ih =>
    intro text rest items hread
    obtain ⟨next, -, hread⟩ := bind_eq_ok_iff.1 hread
    cases next with
    | none =>
      obtain ⟨rfl, -⟩ := Prod.mk.inj (pure_eq_ok_iff.1 hread)
      exact nofun
    | some text =>
      obtain ⟨⟨item, _⟩, hitem, hread⟩ := bind_eq_ok_iff.1 hread
      obtain ⟨⟨items, _⟩, hitems, hread⟩ := bind_eq_ok_iff.1 hread
      obtain ⟨rfl, -⟩ := Prod.mk.inj (pure_eq_ok_iff.1 hread)
      exact List.forall_mem_cons.2 ⟨h hitem, ih false hitems⟩

theorem Ensures.readList (h : Ensures read P) :
    Ensures (readList read) fun items => ∀ item ∈ items, P item := by
  intro text rest items hread
  unfold Json.readList at hread
  split at hread
  · obtain ⟨⟨items, _⟩, hitems, hread⟩ := bind_eq_ok_iff.1 hread
    obtain ⟨_, -, hread⟩ := bind_eq_ok_iff.1 hread
    obtain ⟨rfl, -⟩ := Prod.mk.inj (pure_eq_ok_iff.1 hread)
    exact h.readItems _ _ hitems
  · exact absurd hread (unsuitableValue_ne_ok _ _)

theorem Ensures.parse (h : Ensures read P) {text : String} {value : α}
    (hparse : parse read text = .ok value) : P value := by
  obtain ⟨⟨other, rest⟩, hread, hparse⟩ := bind_eq_ok_iff.1 hparse
  simp only at hparse
  split at hparse
  · cases pure_eq_ok_iff.1 hparse
    exact h hread
  · cases hparse

end

section
variable {σ : Type} {fields : List (RecordField σ)} {start : σ} {Valid : σ → Prop}

/-- The field keeps a valid draft valid. -/
def RecordField.Keeps (field : RecordField σ) (Valid : σ → Prop) : Prop :=
  ∀ draft, Valid draft → Ensures (field.read draft) Valid

theorem ensures_readMember (hfields : ∀ field ∈ fields, field.Keeps Valid) {draft : σ}
    (hdraft : Valid draft) : Ensures (readMember fields draft) Valid := by
  intro text rest draft' h
  obtain ⟨⟨name, _⟩, -, h⟩ := bind_eq_ok_iff.1 h
  simp only at h
  split at h
  · rename_i field hfield
    obtain ⟨-, h⟩ := guard_eq_ok_iff.1 h
    obtain ⟨_, -, h⟩ := bind_eq_ok_iff.1 h
    exact hfields field (List.mem_of_find?_eq_some hfield) draft hdraft h
  · obtain ⟨_, -, h⟩ := bind_eq_ok_iff.1 h
    obtain ⟨_, -, h⟩ := bind_eq_ok_iff.1 h
    obtain ⟨rfl, -⟩ := Prod.mk.inj (pure_eq_ok_iff.1 h)
    exact hdraft

theorem ensures_readMembers (hfields : ∀ field ∈ fields, field.Keeps Valid) (fuel : Nat) (isFirst : Bool)
    {draft : σ} (hdraft : Valid draft) : Ensures (readMembers fields fuel isFirst draft) Valid := by
  induction fuel generalizing isFirst draft with
  | zero => nofun
  | succ fuel ih =>
    intro text rest draft' h
    rw [readMembers] at h
    split at h
    · cases h
    · obtain ⟨rfl, -⟩ := Prod.mk.inj (Except.ok.inj h)
      exact hdraft
    · split at h
      · cases h
      · obtain ⟨⟨middle, _⟩, hmember, h⟩ := bind_eq_ok_iff.1 h
        exact ih false (ensures_readMember hfields hdraft hmember) h
    · split at h
      · obtain ⟨⟨middle, _⟩, hmember, h⟩ := bind_eq_ok_iff.1 h
        exact ih false (ensures_readMember hfields hdraft hmember) h
      · cases h

theorem ensures_readFields (hfields : ∀ field ∈ fields, field.Keeps Valid) (isFirst : Bool)
    {draft : σ} (hdraft : Valid draft) : Ensures (readFields fields isFirst draft) Valid := by
  induction fields generalizing isFirst draft with
  | nil =>
    intro text rest draft' h
    obtain ⟨rfl, -⟩ := Prod.mk.inj (Except.ok.inj h)
    exact hdraft
  | cons field fields ih =>
    rw [List.forall_mem_cons] at hfields
    intro text rest draft' h
    obtain ⟨next, -, h⟩ := bind_eq_ok_iff.1 h
    cases next with
    | none =>
      obtain ⟨rfl, -⟩ := Prod.mk.inj (pure_eq_ok_iff.1 h)
      exact hdraft
    | some text =>
      obtain ⟨⟨middle, _⟩, hfield, h⟩ := bind_eq_ok_iff.1 h
      exact ih hfields.2 false (hfields.1 draft hdraft hfield) h

theorem finishRecord_eq_ok_iff {α : Type} {finish : σ → Option α} {draft : σ} {value : α} :
    finishRecord finish draft = .ok value ↔ finish draft = some value := by
  unfold finishRecord
  split <;> simp_all

/-- What comes behind a draft, be it the end of a list or of an object, finishes this draft. -/
theorem exists_of_finishRecord {α : Type} {finish : σ → Option α} {close : Scanner Unit} {draft : σ}
    {text rest : List Char} {result : α} (hdraft : Valid draft)
    (h : (finishRecord finish draft >>= fun value => close text >>= fun closed => pure (value, closed.2)) =
      Except.ok (result, rest)) : ∃ draft, Valid draft ∧ finish draft = some result := by
  obtain ⟨value, hvalue, h⟩ := bind_eq_ok_iff.1 h
  obtain ⟨_, -, h⟩ := bind_eq_ok_iff.1 h
  obtain ⟨rfl, -⟩ := Prod.mk.inj (pure_eq_ok_iff.1 h)
  exact ⟨draft, hdraft, finishRecord_eq_ok_iff.1 hvalue⟩

/-- A record is finished from a valid draft if all fields keep drafts valid. -/
theorem ensures_readRecord {α : Type} {finish : σ → Option α} (hstart : Valid start)
    (hfields : ∀ field ∈ fields, field.Keeps Valid) :
    Ensures (readRecord fields start finish) fun result =>
      ∃ draft, Valid draft ∧ finish draft = some result := by
  intro text rest result h
  unfold readRecord at h
  split at h
  · obtain ⟨⟨draft, _⟩, hread, h⟩ := bind_eq_ok_iff.1 h
    exact exists_of_finishRecord (ensures_readFields hfields true hstart hread) h
  · obtain ⟨⟨draft, _⟩, hread, h⟩ := bind_eq_ok_iff.1 h
    exact exists_of_finishRecord (ensures_readMembers hfields _ true hstart hread) h
  · exact absurd h (unsuitableValue_ne_ok _ _)

end

end Unstrip.Json
