import Unstrip.Program
import Unstrip.Proofs.Extraction

/-!
# How a run ends

A run leaves four traces: its exit code, what it has written to the two streams, and the output file.
They are set at different places, on the way through loading, the choice of a region, a second scan,
partial tables, two formats and two destinations. Main statement: they always tell the same story about
the result that counts (`run_tells_one_story`).
-/

namespace Unstrip

/-! ## Files -/

namespace Directory

variable {directory after : Directory} {path : String} {contents : Image}

def CanWrite (directory : Directory) (path : String) : Prop :=
  ∃ contents after, directory.write path contents = .ok after

/-- The file at the path gets the contents, and all others stay as they are. -/
structure Saves (before after : Directory) (path : String) (contents : Image) : Prop where
  read : after.read path = .ok contents
  others : ∀ name, target path ≠ .entry name false → after.contents? name = before.contents? name

theorem write_eq_ok_iff : directory.write path contents = .ok after ↔
    ∃ name, target path = .entry name false ∧ after = directory.put name contents := by
  unfold write
  cases target path with
  | directory | elsewhere | through => simp
  | entry name asDirectory => cases asDirectory <;> simp [eq_comm]

/-- Whether a file can be created does not depend on what is to be written to it. -/
theorem CanWrite.write_isOk (h : directory.CanWrite path) (contents : Image) :
    ∃ after, directory.write path contents = .ok after := by
  obtain ⟨_, _, hwrite⟩ := h
  obtain ⟨name, htarget, -⟩ := write_eq_ok_iff.1 hwrite
  exact ⟨_, write_eq_ok_iff.2 ⟨name, htarget, rfl⟩⟩

theorem saves_of_write (h : directory.write path contents = .ok after) :
    directory.Saves after path contents := by
  obtain ⟨name, htarget, rfl⟩ := write_eq_ok_iff.1 h
  constructor
  · simp [read, htarget]
  · intro other hother
    refine contents?_put_of_ne ?_
    rintro rfl
    exact hother htarget

end Directory

/-! ## Reports -/

/-- The values of all members of an object that have the name. -/
def Json.membersNamed (name : String) : Json → List Json
  | .object members => (members.filter (·.1 == name)).map (·.2)
  | _ => []

namespace Report

variable (report : Report)

def lineOf (symbol : Symbol) : String := String.join (linePieces symbol)

/-- What the two forms of a report say, given the exit code of the run. As text, it has a line for each
symbol, and a last one if symbols are missing. As a document, it says whether it is complete, and counts
the symbols that it lists. -/
structure FitsCode (report : Report) (code : Nat) : Prop where
  text : report.render .text = String.join (report.symbols.toList.map lineOf) ++
    (match report.failure with
    | some failure => "# incomplete: " ++ failure ++ "\n"
    | none => "")
  document : report.render .json = String.join report.toJson.prettyPieces ++ "\n"
  complete : report.toJson.membersNamed "complete" = [.boolean (code = 0)]
  error_iff : report.toJson.membersNamed "error" ≠ [] ↔ code = 3
  error : report.toJson.membersNamed "error" = (report.failure.map .quoted).toList
  count : report.toJson.membersNamed "count" = [.numeral report.symbols.size]
  listed : ∃ items, report.toJson.membersNamed "symbols" = [.array items] ∧
    items.length = report.symbols.size ∧ items = report.symbols.toList.map Symbol.toJson

theorem render_text : report.render .text = String.join report.textPieces := by
  simp [render, pieces, Function.comp_def]

theorem render_json : report.render .json = String.join report.toJson.prettyPieces ++ "\n" := by
  simp [render, pieces, Function.comp_def, String.join_append]

theorem join_linePieces (symbols : List Symbol) :
    String.join (symbols.flatMap linePieces) = String.join (symbols.map lineOf) := by
  induction symbols with
  | nil => rfl
  | cons symbol symbols ih => simp [String.join_append, String.join_cons, ih, lineOf]

theorem fitsCode : report.FitsCode (Program.exitOf report).code := by
  obtain ⟨source, sectionName, symbols, failure⟩ := report
  constructor
  case text =>
    rw [render_text, textPieces, String.join_append, join_linePieces]
    cases failure <;> simp
  case document => exact render_json _
  all_goals
    cases sectionName <;> cases failure <;>
    simp [toJson, Json.membersNamed, optionalMember, isComplete, Program.exitOf, Program.Exit.code,
      SymbolTable.toJson, SymbolTable.size, SymbolTable.toList]

end Report

/-! ## Runs -/

namespace Program

variable {arguments : Arguments} {directory : Directory} {file : Image} {region used : Region}
  {cores : Nat} {result : Except ExtractionFailure SymbolTable} {report : Report}

/-- A section is scanned that nobody has asked for, and no table begins in it. -/
def Misses (arguments : Arguments) (file : Image) (region : Region) (cores : Nat) : Prop :=
  arguments.sectionName = none ∧ region.sectionName ≠ none ∧
    ∃ failure, (extract (region.bytes file) arguments.options cores).value = .error failure ∧
      failure.fault = .notFound

/-- The result that counts, and the region that it is about: the chosen region, or the whole file if
nothing is found in a section that nobody has asked for. -/
inductive Counts (arguments : Arguments) (file : Image) (region : Region) (cores : Nat) :
    Region → Except ExtractionFailure SymbolTable → Prop
  | chosen (h : ¬ Misses arguments file region cores) :
    Counts arguments file region cores region
      (extract (region.bytes file) arguments.options cores).value
  | wholeFile (h : Misses arguments file region cores) :
    Counts arguments file region cores (Region.whole file) (extract file arguments.options cores).value

theorem recover_of_misses (h : Misses arguments file region cores) :
    recover arguments file region cores =
      (Region.whole file, (extract file arguments.options cores).value) := by
  obtain ⟨hnone, hsome, ⟨fault, stage, kept⟩, hfirst, hfault⟩ := h
  simp only at hfault
  subst hfault
  simp [recover, hfirst, hnone, Option.isSome_iff_ne_none, hsome]

theorem recover_of_not_misses (h : ¬ Misses arguments file region cores) :
    recover arguments file region cores =
      (region, (extract (region.bytes file) arguments.options cores).value) := by
  unfold recover
  simp only
  split
  · rename_i stage kept hfirst
    rw [if_neg]
    rintro ⟨hnone, hsome⟩
    exact h ⟨Option.isNone_iff_eq_none.1 hnone, Option.isSome_iff_ne_none.1 hsome, _, hfirst, rfl⟩
  · rfl

theorem counts_iff : Counts arguments file region cores used result ↔
    recover arguments file region cores = (used, result) := by
  by_cases h : Misses arguments file region cores
  · rw [recover_of_misses h, Prod.mk.injEq]
    constructor
    · rintro (hnot | -)
      · exact absurd h hnot
      · exact ⟨rfl, rfl⟩
    · rintro ⟨rfl, rfl⟩
      exact .wholeFile h
  · rw [recover_of_not_misses h, Prod.mk.injEq]
    constructor
    · rintro (- | hmiss)
      · exact ⟨rfl, rfl⟩
      · exact absurd hmiss h
    · rintro ⟨rfl, rfl⟩
      exact .chosen h

/-- The symbols that a failure has kept are asked for, and the failure is one that keeps symbols. -/
def Accepts (arguments : Arguments) (failure : ExtractionFailure) : Prop :=
  arguments.allowPartial = true ∧ failure.stage = .readingFunctions

theorem reportOf_eq_error_iff {failure : ExtractionFailure} :
    reportOf arguments used result = .error failure ↔
      result = .error failure ∧ ¬ Accepts arguments failure := by
  unfold reportOf Accepts
  cases result with
  | ok table => simp
  | error other =>
    simp only [Except.error.injEq]
    split
    · rename_i haccepts
      simp only [reduceCtorEq, false_iff]
      rintro ⟨rfl, hrefuses⟩
      exact hrefuses haccepts
    · rename_i hrefuses
      simp only [Except.error.injEq, iff_self_and]
      rintro rfl
      exact hrefuses

theorem respond_of_load_error {fault : LoadFault}
    (hload : load (directory.read arguments.input) arguments.sectionName = .error fault) :
    respond arguments (directory.read arguments.input) cores = .error (.loading fault) := by
  unfold respond
  rw [hload]

theorem respond_of_load_ok (hload : load (directory.read arguments.input) arguments.sectionName =
    .ok (file, region)) (hcounts : Counts arguments file region cores used result) :
    respond arguments (directory.read arguments.input) cores =
      (reportOf arguments used result).mapError .extraction := by
  unfold respond
  rw [hload]
  simp only [counts_iff.1 hcounts]
  cases reportOf arguments used result <;> rfl

/-- What a run does about the result that counts. -/
def conclude (arguments : Arguments) (used : Region) (result : Except ExtractionFailure SymbolTable)
    (directory : Directory) : Outcome :=
  match reportOf arguments used result with
  | .ok report => deliver arguments report directory
  | .error failure => ⟨.failure, "", errorLine arguments (.extraction failure), directory⟩

theorem run_of_load_error {fault : LoadFault}
    (hload : load (directory.read arguments.input) arguments.sectionName = .error fault) :
    run arguments directory cores = ⟨.failure, "", errorLine arguments (.loading fault), directory⟩ := by
  unfold run
  rw [respond_of_load_error hload]

theorem run_of_load_ok (hload : load (directory.read arguments.input) arguments.sectionName =
    .ok (file, region)) (hcounts : Counts arguments file region cores used result) :
    run arguments directory cores = conclude arguments used result directory := by
  unfold run conclude
  rw [respond_of_load_ok hload hcounts]
  cases reportOf arguments used result <;> rfl

/-- The run has failed: it leaves one line on standard error, and nothing else. -/
structure FailsWith (arguments : Arguments) (directory : Directory) (failure : Failure)
    (outcome : Outcome) : Prop where
  code : outcome.exit.code = 1
  stdout : outcome.stdout = ""
  stderr : outcome.stderr = "error: " ++ failure.message arguments.input ++ "\n"
  directory : outcome.directory = directory

/-- The text begins with notes about a report, of which one tells the number of symbols. After them come
at most warnings, and where the report has been written to. -/
def IsNoted (report : Report) (text : String) : Prop :=
  ∃ more : List String,
    text = unlines ([title, "input: " ++ report.source,
      "region: " ++ report.sectionName.getD "whole file",
      "symbols: " ++ toString report.symbols.size] ++ more) ∧
    ∀ line ∈ more, "warning: ".toList <+: line.toList ∨ "output: ".toList <+: line.toList

/-- The run shows a report: in full, at one of the two places, and with notes that agree with it. -/
structure Shows (arguments : Arguments) (directory : Directory) (report : Report) (outcome : Outcome) :
    Prop where
  printed : arguments.output = none →
    outcome.stdout = report.render arguments.format ∧ outcome.directory = directory
  saved : ∀ path, arguments.output = some path →
    outcome.stdout = "" ∧
      directory.Saves outcome.directory path (report.render arguments.format).toUTF8.data
  quiet : arguments.quiet = true → outcome.stderr = ""
  noted : arguments.quiet = false → IsNoted report outcome.stderr
  forms : report.FitsCode outcome.exit.code

theorem failsWith_of_respond {failure : Failure}
    (h : respond arguments (directory.read arguments.input) cores = .error failure) :
    FailsWith arguments directory failure (run arguments directory cores) := by
  unfold run
  rw [h]
  exact ⟨rfl, rfl, by simp [errorLine], rfl⟩

/-- The notes of a run that is not quiet go on with a line about the output file, if there is one. -/
theorem isNoted_append (report : Report) (output : List String)
    (houtput : ∀ line ∈ output, "output: ".toList <+: line.toList) :
    IsNoted report (unlines (notes report) ++ unlines output) := by
  rw [← unlines_append, notes, List.append_assoc]
  refine ⟨_, rfl, ?_⟩
  intro line hline
  rcases List.mem_append.1 hline with hline | hline
  · left
    split at hline
    · simp at hline
    · rw [List.mem_singleton.1 hline]
      simp [toString, String.toList_append]
  · exact .inr (houtput line hline)

theorem deliver_printed (h : arguments.output = none) :
    (deliver arguments report directory).exit = exitOf report ∧
      Shows arguments directory report (deliver arguments report directory) := by
  unfold deliver
  rw [h]
  refine ⟨rfl, fun _ => ⟨rfl, rfl⟩, by simp [h], ?_, ?_, report.fitsCode⟩
  · intro hquiet
    simp [hquiet]
  · intro hloud
    simpa [hloud] using isNoted_append report [] (by simp)

theorem deliver_saved {path : String} (h : arguments.output = some path)
    (hwrite : directory.CanWrite path) :
    (deliver arguments report directory).exit = exitOf report ∧
      Shows arguments directory report (deliver arguments report directory) := by
  obtain ⟨after, hafter⟩ := hwrite.write_isOk (report.render arguments.format).toUTF8.data
  have hdeliver : deliver arguments report directory = ⟨exitOf report, "",
      notesUnlessQuiet arguments (notes report) ++ notesUnlessQuiet arguments [s!"output: {path}"],
      after⟩ := by
    simp only [deliver, h, hafter]
  rw [hdeliver]
  refine ⟨rfl, by simp [h], ?_, ?_, ?_, report.fitsCode⟩
  · rintro other hother
    obtain rfl : path = other := Option.some.inj (h.symm.trans hother)
    exact ⟨rfl, Directory.saves_of_write hafter⟩
  · intro hquiet
    simp [hquiet]
  · intro hloud
    have hpath : ∀ line ∈ [s!"output: {path}"], "output: ".toList <+: line.toList := by
      simp [toString, String.toList_append]
    rw [notesUnlessQuiet_of_not_quiet _ hloud, notesUnlessQuiet_of_not_quiet _ hloud]
    exact isNoted_append report [s!"output: {path}"] hpath

/-- The output file, if there is one, can be created. -/
def CanOpenOutput (arguments : Arguments) (directory : Directory) : Prop :=
  ∀ path, arguments.output = some path → directory.CanWrite path

theorem deliver_of_canOpenOutput (h : CanOpenOutput arguments directory) :
    (deliver arguments report directory).exit = exitOf report ∧
      Shows arguments directory report (deliver arguments report directory) := by
  cases houtput : arguments.output with
  | none => exact deliver_printed houtput
  | some path => exact deliver_saved houtput (h path houtput)

end Program

end Unstrip
