import Mathlib.Data.List.TakeWhile
import Unstrip.Proofs.Extension

/-!
# The cap on names

A cap on the length of names refuses names and does nothing else. A reading under a lower cap is
related by `LimitsTo` to the same reading under a higher one: it comes to the same value if that is
within the lower cap, and otherwise to a fault that says that a name does not end within it. The steps
of a reading inherit this from each other. Main statement: under a lower cap an extraction comes to the
same table, or stops at the first name that is too long (`cap_only_refuses`).
-/

namespace Unstrip

/-! ## Readings under a cap -/

/-- The second reading is the first one, except that values above the cap are refused as unterminated. -/
structure LimitsTo {α : Type} (cap : Nat) (size : α → Nat) (free limited : Except Fault α) : Prop where
  ok_iff : ∀ a, limited = .ok a ↔ free = .ok a ∧ size a ≤ cap
  refused : ∀ a, free = .ok a → cap < size a →
    ∃ offset, limited = .error (.corrupt (.unterminated offset cap))

namespace LimitsTo

variable {α β : Type} {cap : Nat} {size : α → Nat} {size' : β → Nat}

/-- What happens before the cap has a say. -/
theorem after {x : Except Fault α} {f g : α → Except Fault β}
    (h : ∀ a, x = .ok a → LimitsTo cap size' (f a) (g a)) : LimitsTo cap size' (x >>= f) (x >>= g) := by
  cases x with
  | error fault => exact ⟨fun b => ⟨fun h => (nomatch h), fun h => (nomatch h.1)⟩, fun b h => (nomatch h)⟩
  | ok a => exact h a rfl

/-- What happens to a value that the cap has let through, and that keeps its size. -/
theorem before {x y : Except Fault α} {f : α → Except Fault β} (h : LimitsTo cap size x y)
    (hsize : ∀ a b, x = .ok a → f a = .ok b → size' b = size a) :
    LimitsTo cap size' (x >>= f) (y >>= f) := by
  refine ⟨fun b => ?_, fun b hb hlt => ?_⟩
  · simp only [bind_eq_ok_iff, h.ok_iff]
    constructor
    · rintro ⟨a, ⟨ha, hle⟩, hb⟩
      exact ⟨⟨a, ha, hb⟩, by rw [hsize a b ha hb]; exact hle⟩
    · rintro ⟨⟨a, ha, hb⟩, hle⟩
      exact ⟨a, ⟨ha, by rw [← hsize a b ha hb]; exact hle⟩, hb⟩
  · obtain ⟨a, ha, hb⟩ := bind_eq_ok_iff.1 hb
    obtain ⟨offset, hy⟩ := h.refused a ha (by rw [← hsize a b ha hb]; exact hlt)
    exact ⟨offset, by rw [hy]; rfl⟩

end LimitsTo

section
variable {cap cap' : Nat}

/-- A lower cap looks at fewer bytes: it finds the same zero byte or none. -/
theorem Image.cString_limitsTo (hle : cap ≤ cap') (image : Image) (offset : Nat) :
    LimitsTo cap List.length (image.cString offset cap') (image.cString offset cap) := by
  have hlength : ∀ length, image.ZeroAfter offset length →
      (image.slice offset length).length = length := fun length hzero =>
    length_slice_of_le (Nat.le_of_lt hzero.lt_size)
  refine ⟨fun bytes => ?_, fun bytes hfree hlt => ?_⟩
  · simp only [cString_eq_ok_iff_window]
    constructor
    · rintro ⟨length, hwindow, hzero, rfl⟩
      exact ⟨⟨length, by omega, hzero, rfl⟩, by rw [hlength length hzero]; omega⟩
    · rintro ⟨⟨length, hwindow, hzero, rfl⟩, hcap⟩
      rw [hlength length hzero] at hcap
      exact ⟨length, by omega, hzero, rfl⟩
  · obtain ⟨length, hwindow, hzero, rfl⟩ := cString_eq_ok_iff_window.1 hfree
    rw [hlength length hzero] at hlt
    have hin := hzero.lt_size
    -- the bytes that are looked at lie inside the image, since the zero byte behind them does
    exact ⟨offset, (StringOutcome.unterminated (by omega) fun j hj => hzero.2 j (by omega)).cString_eq⟩

theorem NameTable.name_limitsTo (hle : cap ≤ cap') (image : Image) (header : Header) (nameIndex : Nat) :
    LimitsTo cap String.utf8ByteSize ((ofHeader image header cap').name nameIndex)
      ((ofHeader image header cap).name nameIndex) := by
  unfold name
  refine .after fun offset _ => .before (Image.cString_limitsTo hle image offset) fun bytes name _ h => ?_
  split at h
  · rename_i characters hdecode
    obtain rfl := pure_eq_ok_iff.1 h
    rw [← Utf8.length_toUTF8, Utf8.decode_eq_ok_toList_iff.1 (by rw [hdecode, String.toList_ofList])]
  · cases h

theorem NameTable.follow_limitsTo (hle : cap ≤ cap') (image : Image) (header : Header)
    (descriptor : Descriptor) :
    LimitsTo cap (fun entry => entry.name.utf8ByteSize) ((ofHeader image header cap').follow descriptor)
      ((ofHeader image header cap).follow descriptor) := by
  unfold follow
  refine .after fun metadata _ => ?_
  refine .before (name_limitsTo hle image header metadata.nameIndex) fun name entry _ h => ?_
  rw [pure_eq_ok_iff.1 h]

def Symbol.nameSize (symbol : Symbol) : Nat := symbol.name.utf8ByteSize

theorem Records.symbolAt_limitsTo (hle : cap ≤ cap') (image : Image) (header : Header) (index : Nat) :
    LimitsTo cap Symbol.nameSize ((ofHeader image header cap').symbolAt index)
      ((ofHeader image header cap).symbolAt index) := by
  unfold symbolAt symbolOf
  refine .after fun descriptor _ => ?_
  refine .before (NameTable.follow_limitsTo hle image header descriptor) fun entry symbol _ h => ?_
  rw [pure_eq_ok_iff.1 h]
  rfl

end

/-! ## Tables under a cap -/

section
variable {image : Image} {header : Header} {options : Options} {cores cap cap' : Nat} {table : SymbolTable}

def Options.withNameCap (options : Options) (cap : Nat) : Options := { options with nameCap := cap }

/-- The symbols before the first whose name is longer than the cap. -/
def SymbolTable.within (table : SymbolTable) (cap : Nat) : List Symbol :=
  table.toList.takeWhile fun symbol => symbol.nameSize ≤ cap

/-- A build under a lower cap comes to a table if all names are within that cap. -/
theorem buildTable_withNameCap_eq_ok_iff (hle : cap ≤ cap') :
    (buildTable image header (options.withNameCap cap) cores).value = .ok table ↔
      (buildTable image header (options.withNameCap cap') cores).value = .ok table ∧
        ∀ symbol ∈ table.toList, symbol.nameSize ≤ cap := by
  have hlimit := Records.symbolAt_limitsTo hle image header
  simp only [buildTable_eq_ok_iff, Options.withNameCap, (hlimit _).ok_iff]
  constructor
  · rintro ⟨symbols, hsize, hall, rfl⟩
    refine ⟨⟨symbols, hsize, fun i hi => (hall i hi).1, rfl⟩, fun symbol hmem => ?_⟩
    obtain ⟨i, hi, rfl⟩ := List.getElem_of_mem hmem
    exact (hall i hi).2
  · rintro ⟨⟨symbols, hsize, hall, rfl⟩, hfit⟩
    exact ⟨symbols, hsize, fun i hi => ⟨hall i hi, hfit _ (Array.getElem_mem_toList hi)⟩, rfl⟩

theorem SymbolTable.nameSize_le_of_mem_within {symbol : Symbol} (h : symbol ∈ table.within cap) :
    symbol.nameSize ≤ cap := by
  simpa using List.mem_takeWhile_imp h

/-- The symbols whose names are within the cap come first, and behind them the one that is too long. -/
theorem SymbolTable.toList_eq_within_append (hlong : ∃ symbol ∈ table.toList, cap < symbol.nameSize) :
    ∃ symbol rest, table.toList = table.within cap ++ symbol :: rest ∧ cap < symbol.nameSize := by
  let fits (symbol : Symbol) : Bool := symbol.nameSize ≤ cap
  have hparts : table.within cap ++ table.toList.dropWhile fits = table.toList :=
    List.takeWhile_append_dropWhile
  cases hdrop : table.toList.dropWhile fits with
  | nil =>
    obtain ⟨symbol, hmem, hlt⟩ := hlong
    have hfit : symbol.nameSize ≤ cap := by
      simpa [fits] using List.dropWhile_eq_nil_iff.1 hdrop symbol hmem
    omega
  | cons symbol rest =>
    have hfirst := List.dropWhile_get_zero_not table.toList (p := fits) (by simp [hdrop])
    simp only [hdrop, List.get_eq_getElem, List.getElem_cons_zero] at hfirst
    exact ⟨symbol, rest, by rw [← hdrop, hparts], by simpa [fits] using hfirst⟩

/-- Otherwise it stops at the first name that is longer than the cap. -/
theorem buildTable_withNameCap_eq_error (hle : cap ≤ cap')
    (h : (buildTable image header (options.withNameCap cap') cores).value = .ok table)
    (hlong : ∃ symbol ∈ table.toList, cap < symbol.nameSize) :
    ∃ offset, (buildTable image header (options.withNameCap cap) cores).value =
      .error ⟨.corrupt (.unterminated offset cap), (table.within cap).toArray⟩ := by
  obtain ⟨long, rest, hparts, hlt⟩ := SymbolTable.toList_eq_within_append hlong
  obtain ⟨symbols, hsize, hall, rfl⟩ := buildTable_eq_ok_iff.1 h
  set first := (SymbolTable.ofArray symbols).within cap
  have hlimit := Records.symbolAt_limitsTo hle image header
  have hfree : ∀ i symbol, (first ++ long :: rest)[i]? = some symbol →
      (Records.ofHeader image header cap').symbolAt i = .ok symbol := by
    intro i symbol hi
    rw [← hparts] at hi
    obtain ⟨hlt, rfl⟩ := List.getElem?_eq_some_iff.1 hi
    exact hall i (by simpa [SymbolTable.toList, SymbolTable.ofArray] using hlt)
  obtain ⟨offset, hrefused⟩ := (hlimit first.length).refused long (hfree _ _ (by simp)) hlt
  refine ⟨offset, buildTable_eq_error_iff.2 ⟨?_, fun i hi => ?_, hrefused⟩⟩
  · have := congrArg List.length hparts
    simp [SymbolTable.toList, SymbolTable.ofArray] at this
    simp
    omega
  · have hi : i < first.length := by simpa using hi
    refine ((hlimit i).ok_iff _).2 ⟨hfree i _ ?_, ?_⟩
    · rw [List.getElem?_append_left hi]
      simp
    · exact SymbolTable.nameSize_le_of_mem_within (List.getElem_mem hi)

/-- **A cap on names only refuses names.** What an extraction comes to under one cap, it comes to under
every higher one. A table that is recovered under the higher cap is recovered under the lower one if
all its names are within that cap. Otherwise the extraction stops at the first name that is not: the
table is corrupt, and the symbols before that name can be kept. -/
theorem cap_only_refuses (image : Image) (options : Options) (cores : Nat) {cap cap' : Nat}
    (hle : cap ≤ cap') :
    (∀ table, (extract image (options.withNameCap cap) cores).value = .ok table →
      (extract image (options.withNameCap cap') cores).value = .ok table) ∧
    (∀ table, (extract image (options.withNameCap cap') cores).value = .ok table →
      ((∀ symbol ∈ table.toList, symbol.nameSize ≤ cap) →
        (extract image (options.withNameCap cap) cores).value = .ok table) ∧
      ((∃ symbol ∈ table.toList, cap < symbol.nameSize) →
        ∃ offset, (extract image (options.withNameCap cap) cores).value =
          .error ⟨.corrupt (.unterminated offset cap), .readingFunctions,
            if options.allowPartial then SymbolTable.ofList (table.within cap)
            else SymbolTable.blank⟩)) := by
  refine ⟨fun table h => ?_, fun table h => ?_⟩
  · obtain ⟨anchor, header, hfind, hdecode, hbuild⟩ := extract_eq_ok_iff.1 h
    exact extract_eq_ok_iff.2
      ⟨anchor, header, hfind, hdecode, ((buildTable_withNameCap_eq_ok_iff hle).1 hbuild).1⟩
  · obtain ⟨anchor, header, hfind, hdecode, hbuild⟩ := extract_eq_ok_iff.1 h
    refine ⟨fun hfit => ?_, fun hlong => ?_⟩
    · exact extract_eq_ok_iff.2
        ⟨anchor, header, hfind, hdecode, (buildTable_withNameCap_eq_ok_iff hle).2 ⟨hbuild, hfit⟩⟩
    · obtain ⟨offset, hstop⟩ := buildTable_withNameCap_eq_error hle hbuild hlong
      exact ⟨offset, extract_eq_stopped_iff.2
        ⟨anchor, header, _, hfind, hdecode, hstop, rfl, rfl⟩⟩

/-- The names of the two functions have one byte and four. A cap of four bytes lets both through, and a
cap of three keeps the first. -/
theorem cap_only_refuses_two_functions :
    let options : Options := { allowPartial := true }
    let table := SymbolTable.ofArray #[⟨"a", 4096, none⟩, ⟨"main", 4112, none⟩]
    let under (cap : Nat) := (extract twoFunctions (options.withNameCap cap) 1).value
    under 4 = .ok table ∧ under 4096 = .ok table ∧
    (∀ symbol ∈ table.toList, symbol.nameSize ≤ 4) ∧
    (∃ symbol ∈ table.toList, 3 < symbol.nameSize) ∧
    ∃ offset, under 3 = .error ⟨.corrupt (.unterminated offset 3), .readingFunctions,
      SymbolTable.ofList [⟨"a", 4096, none⟩]⟩ := by
  intro options table under
  have hfour : under 4 = .ok table := by decide +kernel
  have hfit : ∀ symbol ∈ table.toList, symbol.nameSize ≤ 4 := by decide
  have hlong : ∃ symbol ∈ table.toList, 3 < symbol.nameSize := by decide
  have hmore : under 4096 = .ok table :=
    (cap_only_refuses twoFunctions options 1 (show 4 ≤ 4096 by decide)).1 table hfour
  have hlower := (cap_only_refuses twoFunctions options 1 (show 3 ≤ 4096 by decide)).2 table hmore
  exact ⟨((cap_only_refuses twoFunctions options 1 (show 4 ≤ 4096 by decide)).2 table hmore).1 hfit,
    hmore, hfit, hlong, hlower.2 hlong⟩

end

end Unstrip
