import Unstrip.Proofs.Failure
import Unstrip.Symbol.Json

/-!
# The sorted flag

A table remembers whether its addresses ascend, and `lookup` relies on it. The flag is worked out
wherever a table is made from symbols; only the blank table, which stands for no result, comes
without that. So of all tables that can be had the blank one alone has a wrong flag
(`isSorted_unless_blank`): it is empty, and its flag says that it is not sorted.
-/

namespace Unstrip

namespace SymbolTable

variable {table table' : SymbolTable}

/-- The tables that can be had: those made from symbols or read from text, the blank one, and those
that extractions come to, be it as their result or as what a failure has kept. -/
inductive Obtainable : SymbolTable → Prop
  | made (symbols : List Symbol) : Obtainable (ofList symbols)
  | initial : Obtainable blank
  | read {text : String} {table : SymbolTable} (h : ofJsonText text = .ok table) : Obtainable table
  | extracted {image : Image} {options : Options} {cores : Nat} {table : SymbolTable}
      (h : (extract image options cores).value = .ok table) : Obtainable table
  | kept {image : Image} {options : Options} {cores : Nat} {failure : ExtractionFailure}
      (h : (extract image options cores).value = .error failure) : Obtainable failure.kept

/-- Whether the table is one that is made from its symbols. -/
def IsMade (table : SymbolTable) : Prop := table = ofArray table.symbols

theorem isMade_ofArray (symbols : Array Symbol) : (ofArray symbols).IsMade := rfl

theorem not_isMade_blank : ¬ blank.IsMade := by
  unfold IsMade
  decide

theorem ascends_blank : blank.Ascends := by simp [Ascends]

/-- The flag of a table is right if and only if the table is made from its symbols. -/
theorem isSorted_iff_ascends : (table.isSorted = true ↔ table.Ascends) ↔ table.IsMade := by
  rw [IsMade, eq_ofArray_iff]
  exact (and_iff_right rfl).symm

/-- Tables that are made from their symbols are equal if they have the same symbols. -/
theorem IsMade.ext (h : table.IsMade) (h' : table'.IsMade) (hsame : table.toList = table'.toList) :
    table = table' := by
  have hsymbols : table.symbols = table'.symbols := Array.toList_inj.1 hsame
  rw [h, h', hsymbols]

end SymbolTable

/-! ## The tables of extractions -/

open SymbolTable

variable {image : Image} {options : Options} {cores : Nat}

theorem isMade_of_extract_ok {table : SymbolTable} (h : (extract image options cores).value = .ok table) :
    table.IsMade := by
  obtain ⟨anchor, header, -, -, hbuild⟩ := extract_eq_ok_iff.1 h
  obtain ⟨symbols, -, -, rfl⟩ := buildTable_eq_ok_iff.1 hbuild
  exact isMade_ofArray symbols

/-- Only symbols that are asked for are kept as a table made from them; otherwise the table is blank. -/
theorem kept_of_extract_error {failure : ExtractionFailure}
    (h : (extract image options cores).value = .error failure) :
    (options.allowPartial = true ∧ failure.stage = .readingFunctions ∧ failure.kept.IsMade) ∨
      (¬ (options.allowPartial = true ∧ failure.stage = .readingFunctions) ∧ failure.kept = blank) := by
  obtain ⟨fault, -, rfl⟩ | ⟨anchor, fault, -, -, rfl⟩ | ⟨anchor, header, stop, -, -, -, rfl⟩ :=
    extract_error_cases h
  · exact .inr ⟨by simp, rfl⟩
  · exact .inr ⟨by simp, rfl⟩
  · by_cases hpart : options.allowPartial = true
    · refine .inl ⟨hpart, rfl, ?_⟩
      rw [Extraction.kept, if_pos hpart]
      exact isMade_ofArray stop.symbols
    · exact .inr ⟨fun hasked => hpart hasked.1, if_neg hpart⟩

/-- A table that can be had is made from its symbols, or it is the blank one. -/
theorem SymbolTable.Obtainable.isMade_iff {table : SymbolTable} (h : Obtainable table) :
    table.IsMade ↔ table ≠ blank := by
  refine ⟨fun hmade hblank => not_isMade_blank (hblank ▸ hmade), fun hne => ?_⟩
  cases h with
  | made symbols => exact isMade_ofArray _
  | initial => exact absurd rfl hne
  | read h =>
    obtain ⟨symbols, -, h⟩ := bind_eq_ok_iff.1 h
    obtain rfl := pure_eq_ok_iff.1 h
    exact isMade_ofArray _
  | extracted h => exact isMade_of_extract_ok h
  | kept h =>
    rcases kept_of_extract_error h with ⟨-, -, hmade⟩ | ⟨-, hblank⟩
    · exact hmade
    · exact absurd hblank hne

/-- **The sorted flag is right, except for that of the blank table.** Of the tables that can be had, all
others are sorted by their flag exactly if their addresses ascend, and two tables with the same symbols
differ only if one of them is blank. What a failed extraction has kept is blank unless it was asked
to keep symbols and got as far as the records. -/
theorem isSorted_unless_blank (image : Image) (options : Options) (cores : Nat) :
    (∀ table, Obtainable table → ((table.isSorted = true ↔ table.Ascends) ↔ table ≠ blank)) ∧
    (∀ table table', Obtainable table → Obtainable table' → table.toList = table'.toList →
      (table = table' ↔ (table = blank ↔ table' = blank))) ∧
    (∀ failure, (extract image options cores).value = .error failure →
      (failure.kept = blank ↔ ¬ (options.allowPartial = true ∧ failure.stage = .readingFunctions))) := by
  refine ⟨fun table h => isSorted_iff_ascends.trans h.isMade_iff, ?_, ?_⟩
  · intro table table' h h' hsame
    refine ⟨fun heq => heq ▸ Iff.rfl, fun hblank => ?_⟩
    by_cases hb : table = blank
    · exact hb.trans (hblank.1 hb).symm
    · have hb' : table' ≠ blank := fun hb' => hb (hblank.2 hb')
      exact (h.isMade_iff.2 hb).ext (h'.isMade_iff.2 hb') hsame
  · intro failure h
    rcases kept_of_extract_error h with ⟨hpart, hstage, hmade⟩ | ⟨hnot, hblank⟩
    · have hne : failure.kept ≠ blank := fun hblank => not_isMade_blank (hblank ▸ hmade)
      simp [hne, hpart, hstage]
    · simp only [hblank, hnot, not_false_eq_true]

/-- With a cap of zero bytes the first of two names is too long, and no symbol comes before it. If
symbols are to be kept, the table of no symbols is what is left, and the blank table otherwise. -/
theorem isSorted_unless_blank_two_functions :
    let asked : Options := { nameCap := 0, allowPartial := true }
    let empty := SymbolTable.ofArray #[]
    let failure (kept : SymbolTable) : ExtractionFailure :=
      ⟨.corrupt (.unterminated 37 0), .readingFunctions, kept⟩
    (extract twoFunctions asked 1).value = .error (failure empty) ∧
    Obtainable empty ∧ ((empty.isSorted = true ↔ empty.Ascends) ↔ empty ≠ blank) ∧
    Obtainable blank ∧ empty.toList = blank.toList ∧
    (empty = blank ↔ (empty = blank ↔ blank = blank)) ∧
    (empty = blank ↔ ¬ (asked.allowPartial = true ∧ (failure empty).stage = .readingFunctions)) := by
  intro asked empty failure
  have hfail : (extract twoFunctions asked 1).value = .error (failure empty) := by decide +kernel
  have hempty : Obtainable empty := .kept hfail
  have hall := isSorted_unless_blank twoFunctions asked 1
  exact ⟨hfail, hempty, hall.1 _ hempty, .initial, rfl, hall.2.1 _ _ hempty .initial rfl,
    hall.2.2 _ hfail⟩

/-- An image without any bytes leads to a table that is empty, and so ascends, but whose flag says that
it is not sorted; and it differs from the table of no symbols. -/
theorem flag_wrong_for_empty_image :
    ∃ failure, (extract #[] {} 1).value = .error failure ∧
      Obtainable failure.kept ∧ Obtainable (SymbolTable.ofList []) ∧
      failure.kept.Ascends ∧ ¬ (failure.kept.isSorted = true ↔ failure.kept.Ascends) ∧
      failure.kept.toList = (SymbolTable.ofList []).toList ∧
      failure.kept ≠ SymbolTable.ofList [] := by
  have hfail : (extract #[] {} 1).value = .error ⟨.notFound, .unstarted, blank⟩ := by decide +kernel
  refine ⟨_, hfail, .kept hfail, .made [], ascends_blank, ?_, rfl, by decide⟩
  exact fun h => Bool.false_ne_true (h.2 ascends_blank)

end Unstrip
