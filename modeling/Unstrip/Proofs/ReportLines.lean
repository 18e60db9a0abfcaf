import Unstrip.Encoding
import Unstrip.Proofs.AddressWidth
import Unstrip.Proofs.Machine.Extraction
import Unstrip.Proofs.Outcome
import Unstrip.Proofs.TableJson

/-!
# The lines of a report

As text, a report is meant to have one line for each symbol, and a last one if symbols are missing. It is cut
into lines by whoever reads it, at every line break, and a name is written as it stands in the image. So the
lines that a reader finds are the lines that are meant exactly if no name has a line break
(`text_lines_unless_names_break`): addresses have sixteen digits and no break, and neither have the messages of
an extraction.

A name with a line break can end a line and begin another one that looks like that of a symbol
(`name_forges_line`).
-/

namespace Unstrip

/-! ## Cutting a text into lines -/

/-- The text has no line break. -/
def IsOneLine (text : String) : Prop := '\n' ∉ text.toList

instance (text : String) : Decidable (IsOneLine text) := by
  unfold IsOneLine
  infer_instance

@[simp] theorem isOneLine_append {text more : String} :
    IsOneLine (text ++ more) ↔ IsOneLine text ∧ IsOneLine more := by
  simp [IsOneLine, not_or]

theorem not_mem_of_mem_splitOn {α : Type} [DecidableEq α] {a : α} {text piece : List α}
    (h : piece ∈ text.splitOn a) : a ∉ piece := by
  induction text generalizing piece with
  | nil =>
    rw [List.splitOn_nil, List.mem_singleton] at h
    simp [h]
  | cons c text ih =>
    rw [List.splitOn_cons_eq_if_modifyHead] at h
    by_cases hc : c = a
    · rw [if_pos (by simpa using hc), List.mem_cons] at h
      rcases h with rfl | h
      · exact List.not_mem_nil
      · exact ih h
    · rw [if_neg (by simpa using hc)] at h
      -- The character goes to the front of the first piece; the others stay as they are.
      cases hpieces : text.splitOn a with
      | nil => simp [hpieces] at h
      | cons first rest =>
        rw [hpieces] at ih h
        rcases List.mem_cons.1 h with rfl | h
        · simpa [Ne.symm hc] using ih List.mem_cons_self
        · exact ih (List.mem_cons_of_mem _ h)

/-- Cutting lines that have been put together finds the pieces of each line, and the empty rest behind the
last break. -/
theorem splitOn_unlines (lines : List String) :
    (Program.unlines lines).toList.splitOn '\n' =
      lines.flatMap (fun line => line.toList.splitOn '\n') ++ [[]] := by
  induction lines with
  | nil => rfl
  | cons line lines ih =>
    have hcons : (Program.unlines (line :: lines)).toList =
        line.toList ++ '\n' :: (Program.unlines lines).toList := by simp
    rw [hcons, List.splitOn_append_cons_self, ih, List.flatMap_cons, List.append_assoc]

/-- So the lines are found again exactly if none of them has a break of its own. -/
theorem splitOn_unlines_eq_iff {lines : List String} :
    (Program.unlines lines).toList.splitOn '\n' = lines.map String.toList ++ [[]] ↔
      ∀ line ∈ lines, IsOneLine line := by
  constructor
  · intro h line hline
    have hmem : line.toList ∈ (Program.unlines lines).toList.splitOn '\n' := by
      rw [h]
      exact List.mem_append_left _ (List.mem_map_of_mem hline)
    exact not_mem_of_mem_splitOn hmem
  · intro h
    have hpieces : lines.flatMap (fun line => line.toList.splitOn '\n') =
        lines.flatMap fun line => [line.toList] :=
      List.flatMap_congr fun line hline => List.splitOn_eq_singleton (h line hline)
    rw [splitOn_unlines, hpieces, List.map_eq_flatMap]

def breaks (text : String) : Nat := text.toList.count '\n'

@[simp] theorem breaks_append (text more : String) : breaks (text ++ more) = breaks text + breaks more := by
  simp [breaks, List.count_append]

theorem breaks_eq_zero_iff {text : String} : breaks text = 0 ↔ IsOneLine text := List.count_eq_zero

/-- Every line adds one break to its own. -/
theorem breaks_unlines (lines : List String) :
    breaks (Program.unlines lines) = lines.length + breaks (String.join lines) := by
  induction lines with
  | nil => rfl
  | cons line lines ih =>
    have hbreak : breaks "\n" = 1 := by decide
    simp [String.join_cons, hbreak, ih]
    omega

/-! ## Numbers -/

/-- The value of hexadecimal digits. -/
def hexNumber (digits : List Char) : Nat :=
  digits.foldl (fun n c => 16 * n + (Json.hexValue? c).getD 0) 0

/-- The text consists of sixteen lower-case hexadecimal digits, and they spell the number. -/
structure IsHexWord (text : String) (n : Nat) : Prop where
  length : text.toList.length = 16
  digits : ∀ c ∈ text.toList, c ∈ "0123456789abcdef".toList
  value : hexNumber text.toList = n

theorem exists_of_mem_toDigits {base n : Nat} {c : Char} (hbase : 1 < base) (h : c ∈ Nat.toDigits base n) :
    ∃ d < base, c = Nat.digitChar d := by
  induction n using Nat.strongRecOn with
  | ind n ih =>
    rw [Nat.toDigits_eq_if hbase] at h
    split at h
    · rename_i hlt
      exact ⟨n, hlt, List.mem_singleton.1 h⟩
    · rename_i hge
      rcases List.mem_append.1 h with h | h
      · exact ih (n / base) (Nat.div_lt_self (by omega) hbase) h
      · exact ⟨n % base, Nat.mod_lt _ (by omega), List.mem_singleton.1 h⟩

theorem digitChar_mem : ∀ d < 16, Nat.digitChar d ∈ "0123456789abcdef".toList := by decide

theorem hexValue?_digitChar : ∀ d < 16, Json.hexValue? (Nat.digitChar d) = some d := by decide

theorem hexNumber_toDigits (n : Nat) : hexNumber (Nat.toDigits 16 n) = n := by
  induction n using Nat.strongRecOn with
  | ind n ih =>
    rw [Nat.toDigits_eq_if (by decide)]
    split
    · rename_i hlt
      simp [hexNumber, hexValue?_digitChar n hlt]
    · rename_i hge
      have hmod : n % 16 < 16 := Nat.mod_lt _ (by decide)
      have hdiv := ih (n / 16) (by omega)
      rw [hexNumber] at hdiv
      rw [hexNumber, List.foldl_append, hdiv]
      simp [hexValue?_digitChar _ hmod]
      omega

theorem hexNumber_zeros (count : Nat) : hexNumber (List.replicate count '0') = 0 := by
  induction count with
  | zero => rfl
  | succ count ih =>
    rw [List.replicate_succ, hexNumber, List.foldl_cons]
    exact ih

/-- Zeros in front do not change the number. -/
theorem hexNumber_leftpad (width : Nat) (digits : List Char) :
    hexNumber (digits.leftpad width '0') = hexNumber digits := by
  have hzeros := hexNumber_zeros (width - digits.length)
  rw [hexNumber] at hzeros
  rw [List.leftpad, hexNumber, List.foldl_append, hzeros, hexNumber]

/-- An address of at most 64 bits is shown by sixteen digits. -/
theorem isHexWord_hexPadded {n : Nat} (h : n < wordLimit) : IsHexWord (hexPadded 16 n) n := by
  have hlength : (Nat.toDigits 16 n).length ≤ 16 :=
    (Nat.length_toDigits_le_iff (by decide) (by decide)).2 h
  refine ⟨?_, ?_, ?_⟩
  · simp only [hexPadded, String.toList_ofList, List.length_leftpad]
    omega
  · intro c hc
    rw [hexPadded, String.toList_ofList, List.leftpad, List.mem_append] at hc
    rcases hc with hzero | hdigit
    · rw [(List.mem_replicate.1 hzero).2]
      decide
    · obtain ⟨d, hd, rfl⟩ := exists_of_mem_toDigits (by decide) hdigit
      exact digitChar_mem d hd
  · rw [hexPadded, String.toList_ofList, hexNumber_leftpad, hexNumber_toDigits]

theorem digitChar_ne_break : ∀ d < 16, Nat.digitChar d ≠ '\n' := by decide

theorem isOneLine_digits {base : Nat} (hbase : 1 < base) (hsmall : base ≤ 16) (n : Nat) :
    IsOneLine (String.ofList (Nat.toDigits base n)) := by
  rw [IsOneLine, String.toList_ofList]
  intro h
  obtain ⟨d, hd, hbreak⟩ := exists_of_mem_toDigits hbase h
  exact digitChar_ne_break d (by omega) hbreak.symm

@[simp] theorem isOneLine_numeral (n : Nat) : IsOneLine (toString n) := by
  rw [Nat.toString_eq_ofList_toDigits]
  exact isOneLine_digits (by decide) (by decide) n

@[simp] theorem isOneLine_hex (n : Nat) : IsOneLine (hex n) := isOneLine_digits (by decide) (by decide) n

@[simp] theorem isOneLine_hexPadded (width n : Nat) : IsOneLine (hexPadded width n) := by
  have hdigits : IsOneLine (hex n) := isOneLine_hex n
  rw [IsOneLine, hex, String.toList_ofList] at hdigits
  rw [IsOneLine, hexPadded, String.toList_ofList, List.leftpad, List.mem_append, List.mem_replicate]
  rintro (⟨-, hzero⟩ | hdigit)
  · cases hzero
  · exact hdigits hdigit

@[simp] theorem breaks_hexPadded (width n : Nat) : breaks (hexPadded width n) = 0 :=
  breaks_eq_zero_iff.2 (isOneLine_hexPadded width n)

/-! ## Messages -/

@[simp] theorem isOneLine_toString {text : String} : IsOneLine (toString text) ↔ IsOneLine text := Iff.rfl

/-- A text that is given by its characters, as a literal is. -/
theorem isOneLine_ofList {characters : List Char} (h : '\n' ∉ characters) :
    IsOneLine (String.ofList characters) := by
  rw [IsOneLine, String.toList_ofList]
  exact h

@[simp] theorem isOneLine_utf8Message (fault : Utf8.Fault) : IsOneLine fault.message := by
  unfold Utf8.Fault.message
  cases fault with
  | invalid | incomplete =>
    simp only [isOneLine_append, isOneLine_numeral, isOneLine_toString, and_true]
    and_intros <;> exact isOneLine_ofList (by decide)

@[simp] theorem isOneLine_label (field : Field) : IsOneLine field.label := by
  cases field <;> exact isOneLine_ofList (by decide)

@[simp] theorem isOneLine_title (release : Release) : IsOneLine release.title := by
  cases release <;> exact isOneLine_ofList (by decide)

/-- Of all causes only one that is given in words can have a line break. -/
theorem isOneLine_causeMessage {cause : Cause} (h : ∀ reason, cause = .stated reason → IsOneLine reason) :
    IsOneLine cause.message := by
  unfold Cause.message
  cases cause with
  | stated reason => exact h reason rfl
  | recordOverflow => exact isOneLine_ofList (by decide)
  | _ =>
    simp only [isOneLine_append, isOneLine_toString, isOneLine_numeral, isOneLine_hex,
      isOneLine_hexPadded, isOneLine_label, isOneLine_title, isOneLine_utf8Message,
      and_true, true_and]
    and_intros <;> exact isOneLine_ofList (by decide)

theorem isOneLine_message_iff {fault : Fault} :
    IsOneLine fault.message ↔ ∀ reason, fault = .corrupt (.stated reason) → IsOneLine reason := by
  constructor
  · rintro h reason rfl
    have hmessage : IsOneLine ("Corrupt symbol table: " ++ reason) := h
    exact (isOneLine_append.1 hmessage).2
  · intro h
    unfold Fault.message
    cases fault with
    | notFound => exact isOneLine_ofList (by decide)
    | corrupt cause =>
      have hcause : IsOneLine cause.message :=
        isOneLine_causeMessage fun reason hreason => h reason (congrArg _ hreason)
      simp only [isOneLine_append, isOneLine_toString, hcause, and_true]
      exact isOneLine_ofList (by decide)
    | truncated | unsupported =>
      simp only [isOneLine_append, isOneLine_toString, isOneLine_numeral, isOneLine_hex, isOneLine_hexPadded,
        and_true]
      and_intros <;> exact isOneLine_ofList (by decide)

/-! ## What is shown -/

namespace Symbol

variable (symbol : Symbol)

/-- The line that shows a symbol, without its line break. -/
def shown : String :=
  "0x" ++ hexPadded 16 symbol.address ++ " " ++ symbol.name ++
    match symbol.metadataAddress with
    | some address => " (metadata says 0x" ++ hexPadded 16 address ++ ")"
    | none => ""

@[simp] theorem breaks_shown : breaks symbol.shown = breaks symbol.name := by
  unfold shown
  cases symbol.metadataAddress <;> simp only [breaks_append, breaks_hexPadded] <;> simp [breaks]

@[simp] theorem isOneLine_shown : IsOneLine symbol.shown ↔ IsOneLine symbol.name := by
  rw [← breaks_eq_zero_iff, breaks_shown, breaks_eq_zero_iff]

theorem lineOf_eq : Report.lineOf symbol = symbol.shown ++ "\n" := by
  unfold Report.lineOf Report.linePieces shown
  apply String.toList_inj.1
  cases symbol.metadataAddress <;> simp [Report.showAddress, String.join_cons]

end Symbol

namespace Report

variable (report : Report)

/-- The lines that a report is meant to have as text. -/
def shownLines : List String :=
  report.symbols.toList.map Symbol.shown ++ (report.failure.map ("# incomplete: " ++ ·)).toList

theorem render_text_eq_unlines : report.render .text = Program.unlines report.shownLines := by
  have hsymbols : String.join (report.symbols.toList.map lineOf) =
      Program.unlines (report.symbols.toList.map Symbol.shown) := by
    rw [Program.unlines, List.map_map]
    exact congrArg String.join (List.map_congr_left fun symbol _ => symbol.lineOf_eq)
  rw [report.fitsCode.text, shownLines, Program.unlines_append, hsymbols]
  cases report.failure <;> simp

theorem forall_mem_shownLines_iff :
    (∀ line ∈ report.shownLines, IsOneLine line) ↔
      (∀ symbol ∈ report.symbols.toList, IsOneLine symbol.name) ∧
        ∀ failure ∈ report.failure, IsOneLine failure := by
  have hopening : IsOneLine "# incomplete: " := by decide
  simp [shownLines, or_imp, forall_and, hopening]

theorem breaks_join_shown (symbols : List Symbol) :
    breaks (String.join (symbols.map Symbol.shown)) = breaks (String.join (symbols.map (·.name))) := by
  induction symbols with
  | nil => rfl
  | cons symbol symbols ih => simp [String.join_cons, ih]

/-- Names and the reason of a failure add their own breaks to those of the lines. -/
theorem breaks_render_text :
    breaks (report.render .text) = report.symbols.size + (if report.failure.isSome then 1 else 0) +
      breaks (String.join (report.symbols.toList.map (·.name) ++ report.failure.toList)) := by
  have hopening : breaks "# incomplete: " = 0 := by decide
  have hsize : report.symbols.toList.length = report.symbols.size := Array.length_toList
  rw [render_text_eq_unlines, breaks_unlines, shownLines, String.join_append, breaks_append,
    breaks_join_shown, String.join_append, breaks_append, List.length_append, List.length_map, hsize]
  cases report.failure with
  | none => simp
  | some failure => simp [String.join_cons, hopening]

end Report

/-! ## Extractions -/

section
variable {image : Image} {options : Options} {cores : Nat}

/-- The addresses of every symbol that is recovered have at most 64 bits. -/
theorem hasWords_of_recovered {symbol : Symbol}
    (hsymbol : symbol ∈ recovered (extract image options cores).value) : symbol.HasWords := by
  cases hfind : Anchor.find image with
  | error fault =>
    rw [extract_of_find_error hfind] at hsymbol
    cases hsymbol
  | ok anchor =>
    cases hdecode : Header.decode image anchor with
    | error fault =>
      rw [extract_of_decode_error hfind hdecode] at hsymbol
      cases hsymbol
    | ok header =>
      have hwidth := (Header.sound_of_decode hdecode).wordWidth
      obtain ⟨i, htells⟩ := exists_of_recovered hfind hdecode hsymbol
      obtain ⟨descriptor, metadata, hget, hread, haddress, hother⟩ := htells.decoded
      refine ⟨?_, ?_⟩
      · obtain ⟨-, -, -, hword, rfl⟩ := (DescriptorTable.get_eq_ok_iff hwidth).1 hget
        rw [haddress]
        exact hword
      · intro address hmem
        obtain ⟨-, -, hword, rfl⟩ := (NameTable.metadata_eq_ok_iff hwidth).1 hread
        rw [(hother address hmem).1]
        exact hword

/-- The message of a failed extraction is one line. -/
theorem isOneLine_of_extract_error {failure : ExtractionFailure}
    (h : (extract image options cores).value = .error failure) : IsOneLine failure.fault.message := by
  rw [isOneLine_message_iff]
  intro reason hstated
  rcases Machine.extract_failsOnlyWith image options cores failure h with hkind | hkind
  · rw [hstated] at hkind
    exact hkind.elim
  · rw [hstated] at hkind
    exact hkind.elim

/-- The table is what an extraction comes to, or what a failed one has kept. -/
def IsReturned (result : Except ExtractionFailure SymbolTable) (table : SymbolTable) : Prop :=
  result = .ok table ∨ ∃ failure, result = .error failure ∧ failure.kept = table

theorem IsReturned.hasWords {table : SymbolTable} (h : IsReturned (extract image options cores).value table)
    {symbol : Symbol} (hsymbol : symbol ∈ table.toList) : symbol.HasWords := by
  have hrecovered : symbol ∈ recovered (extract image options cores).value := by
    rcases h with hok | ⟨failure, herror, rfl⟩
    · rw [hok]
      exact hsymbol
    · rw [herror]
      exact hsymbol
  exact hasWords_of_recovered hrecovered

/-- **The text of a report has a line for each symbol, unless a name has a line break.** The text consists of
the lines that are meant, each with a line break behind it, and a reader who cuts it at all line breaks finds
these lines exactly if the names and the reason of a failure have no line break; every break in one of them
makes one line more. Addresses are sixteen digits. Only a reason that is given in words can have a line break,
and no extraction gives one. -/
theorem text_lines_unless_names_break {table : SymbolTable}
    (h : IsReturned (extract image options cores).value table) (fault? : Option Fault) (source : String)
    (sectionName : Option String) :
    let report : Report := ⟨source, sectionName, table, fault?.map Fault.message⟩
    let text := report.render .text
    let lines := table.toList.map Symbol.shown ++ (fault?.map ("# incomplete: " ++ ·.message)).toList
    text = Program.unlines lines ∧
    text.toList.splitOn '\n' = lines.flatMap (fun line => line.toList.splitOn '\n') ++ [[]] ∧
    (text.toList.splitOn '\n' = lines.map String.toList ++ [[]] ↔
      (∀ symbol ∈ table.toList, IsOneLine symbol.name) ∧ ∀ fault ∈ fault?, IsOneLine fault.message) ∧
    breaks text = table.size + (if fault?.isSome then 1 else 0) +
      breaks (String.join (table.toList.map (·.name) ++ (fault?.map Fault.message).toList)) ∧
    (∀ symbol ∈ table.toList, IsHexWord (hexPadded 16 symbol.address) symbol.address ∧
      ∀ address ∈ symbol.metadataAddress, IsHexWord (hexPadded 16 address) address) ∧
    (∀ fault : Fault, IsOneLine fault.message ↔
      ∀ reason, fault = .corrupt (.stated reason) → IsOneLine reason) ∧
    (∀ failure, (extract image options cores).value = .error failure → IsOneLine failure.fault.message) := by
  intro report text lines
  have hlines : report.shownLines = lines := by
    cases fault? <;> rfl
  have htext : text = Program.unlines lines := by rw [← hlines, ← Report.render_text_eq_unlines]
  have hnames := report.forall_mem_shownLines_iff
  rw [hlines] at hnames
  refine ⟨htext, ?_, ?_, ?_, ?_, fun fault => isOneLine_message_iff, fun failure hfail => ?_⟩
  · rw [htext, splitOn_unlines]
  · rw [htext, splitOn_unlines_eq_iff, hnames]
    cases fault? <;> simp [report]
  · have hbreaks := report.breaks_render_text
    cases fault? <;> simpa [report, text] using hbreaks
  · intro symbol hsymbol
    have hwords := h.hasWords hsymbol
    refine ⟨isHexWord_hexPadded hwords.address, ?_⟩
    intro address haddress
    exact isHexWord_hexPadded (hwords.metadataAddress address haddress)
  · exact isOneLine_of_extract_error hfail

end

/-- The symbol that is kept when the second name is too long, with the reason behind it: two lines and no
other break. -/
theorem text_lines_unless_names_break_kept_symbol :
    let options : Options := { nameCap := 2, allowPartial := true }
    let table := SymbolTable.ofList [⟨"a", 0x1000, none⟩]
    let fault : Fault := .corrupt (.unterminated 39 2)
    let text := Report.render ⟨"input.bin", none, table, some fault.message⟩ .text
    IsReturned (extract twoFunctions options 1).value table ∧
    text.toList.splitOn '\n' =
      ["0x0000000000001000 a".toList, ("# incomplete: " ++ fault.message).toList, []] ∧
    breaks text = 2 ∧ IsHexWord "0000000000001000" 0x1000 := by
  intro options table fault text
  have herror : (extract twoFunctions options 1).value = .error ⟨fault, .readingFunctions, table⟩ := by
    decide +kernel
  have hreturned : IsReturned (extract twoFunctions options 1).value table := .inr ⟨_, herror, rfl⟩
  obtain ⟨-, -, hlines, hbreaks, hdigits, -, hfailed⟩ :=
    text_lines_unless_names_break hreturned (some fault) "input.bin" none
  have hname : ∀ symbol ∈ table.toList, IsOneLine symbol.name := by decide
  have hmessage : IsOneLine fault.message := hfailed _ herror
  refine ⟨hreturned, ?_, ?_, (hdigits ⟨"a", 0x1000, none⟩ (by decide)).1⟩
  · refine (hlines.2 ⟨hname, ?_⟩).trans rfl
    rintro _ ⟨⟩
    exact hmessage
  · exact hbreaks.trans (by decide)

/-- A table of one function. Its name is `a`, a line break, and what the line of a function `b` shows. -/
def forgingImage : Image :=
  TableSource.encode ⟨.go116, 4, 1, 0, 0, [⟨"a\n0x0000000000001010 b", 0x1000, 0x1000⟩]⟩

/-- The one name of this image has a line break. The text of its report has two lines, and it is that of two
functions. -/
theorem name_forges_line :
    let table := SymbolTable.ofList [⟨"a\n0x0000000000001010 b", 0x1000, none⟩]
    let honest := SymbolTable.ofList [⟨"a", 0x1000, none⟩, ⟨"b", 0x1010, none⟩]
    let text := Report.render ⟨"input.bin", none, table, none⟩ .text
    (extract forgingImage {} 1).value = .ok table ∧ table.size = 1 ∧ breaks text = 2 ∧
    text = Report.render ⟨"input.bin", none, honest, none⟩ .text := by
  intro table honest text
  refine ⟨?_, rfl, ?_, ?_⟩ <;> decide +kernel

end Unstrip
