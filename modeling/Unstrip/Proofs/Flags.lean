import Unstrip.Proofs.CommandLine
import Unstrip.Proofs.Outcome

/-!
# What the flags change

Some flags say how a result is presented, and some how it is worked out. Two runs on the same files that
differ in such a flag are compared here: the flag changes what it is there for, and the rest of what a run
leaves behind is the same, whatever the other arguments are. Main statement: `flags_keep_result`.
-/

namespace Unstrip

/-! ## Extractions -/

section
variable {image : Image} {options options' : Options}

/-- Of the options, the number of workers has no say in what an extraction comes to. -/
theorem extract_value_congr (cores cores' : Nat) (hcap : options'.nameCap = options.nameCap)
    (hpart : options'.allowPartial = options.allowPartial) :
    (extract image options' cores').value = (extract image options cores).value := by
  rw [extract_value, extract_value]
  cases Anchor.find image with
  | error fault => rfl
  | ok anchor =>
    cases hdecode : Header.decode image anchor with
    | error fault => simp only [hdecode]
    | ok header => simp only [hdecode, Extraction.build, buildTable_value, Extraction.kept, hcap, hpart]

/-- Two results that agree except perhaps for the symbols that a failure has kept. -/
inductive SameUpToKept : (result result' : Except ExtractionFailure SymbolTable) → Prop
  | ok (table : SymbolTable) : SameUpToKept (.ok table) (.ok table)
  | error (fault : Fault) (stage : Stage) (kept kept' : SymbolTable) :
    SameUpToKept (.error ⟨fault, stage, kept⟩) (.error ⟨fault, stage, kept'⟩)

theorem extract_sameUpToKept (cores : Nat) (hcap : options'.nameCap = options.nameCap) :
    SameUpToKept (extract image options cores).value (extract image options' cores).value := by
  have hplace : (extract image options' cores).value.mapError ExtractionFailure.place =
      (extract image options cores).value.mapError ExtractionFailure.place :=
    extract_mapError_place cores cores hcap
  cases h : (extract image options cores).value with
  | ok table =>
    cases h' : (extract image options' cores).value with
    | ok table' =>
      rw [h, h'] at hplace
      cases hplace
      exact .ok table
    | error failure' => rw [h, h'] at hplace; cases hplace
  | error failure =>
    cases h' : (extract image options' cores).value with
    | ok table' => rw [h, h'] at hplace; cases hplace
    | error failure' =>
      rw [h, h'] at hplace
      obtain ⟨fault, stage, kept⟩ := failure
      obtain ⟨fault', stage', kept'⟩ := failure'
      cases hplace
      exact .error fault stage kept kept'

/-- Whether nothing has been found is told by the fault alone. -/
theorem SameUpToKept.notFound_iff {result result' : Except ExtractionFailure SymbolTable}
    (h : SameUpToKept result result') :
    (∃ failure, result' = .error failure ∧ failure.fault = .notFound) ↔
      ∃ failure, result = .error failure ∧ failure.fault = .notFound := by
  cases h <;> simp

end

/-! ## Files -/

/-- Why a file cannot be written does not depend on what is to be written to it. -/
theorem Directory.write_eq_error_of {directory : Directory} {path : String} {contents : Image}
    {fault : OpenFault} (h : directory.write path contents = .error fault) (contents' : Image) :
    directory.write path contents' = .error fault := by
  unfold write at h ⊢
  cases htarget : target path with
  | directory | elsewhere | through => simpa [htarget] using h
  | entry name asDirectory => cases asDirectory <;> simp_all

/-- The empty path leads to the directory itself. -/
theorem Directory.CanWrite.ne_empty {directory : Directory} {path : String} (h : directory.CanWrite path) :
    path ≠ "" := by
  rintro rfl
  obtain ⟨contents, after, hwrite⟩ := h
  exact nomatch (show Except.error OpenFault.isDirectory = .ok after from hwrite)

namespace Program

variable {arguments arguments' : Arguments} {directory : Directory} {file : Image} {region used : Region}
  {cores cores' : Nat} {result result' : Except ExtractionFailure SymbolTable} {report : Report}

/-! ## The number of workers -/

theorem run_congr_jobs (jobs : Nat) :
    run { arguments with jobs := jobs } directory cores' = run arguments directory cores := by
  have hextract : ∀ image,
      (extract image { arguments with jobs := jobs }.options cores').value =
        (extract image arguments.options cores).value := fun _ => extract_value_congr _ _ rfl rfl
  unfold run respond recover
  simp only [hextract]
  rfl

/-! ## Quiet runs -/

/-- A line that tells about the run, and not about an error. -/
def IsNotice (line : String) : Prop :=
  line = title ∨ ∃ label ∈ ["input: ", "region: ", "symbols: ", "warning: ", "output: "],
    label.toList <+: line.toList

/-- A notice is no error line. -/
theorem IsNotice.not_error {line : String} (h : IsNotice line) :
    ¬ "error: ".toList <+: line.toList := by
  obtain rfl | ⟨label, hlabel, rest, hrest⟩ := h
  · decide
  · rintro ⟨rest', hrest'⟩
    rw [← hrest] at hrest'
    simp only [List.mem_cons, List.not_mem_nil, or_false] at hlabel
    rcases hlabel with rfl | rfl | rfl | rfl | rfl <;> simp at hrest'

theorem isNotice_output (path : String) : IsNotice s!"output: {path}" := by
  refine .inr ⟨"output: ", by simp, ?_⟩
  simp [toString, String.toList_append]

theorem isNotice_of_mem_notes : ∀ line ∈ notes report, IsNotice line := by
  intro line h
  simp only [notes, List.cons_append, List.nil_append, List.mem_cons] at h
  obtain rfl | rfl | rfl | rfl | h := h
  · exact .inl rfl
  · refine .inr ⟨"input: ", by simp, ?_⟩
    simp [toString, String.toList_append]
  · refine .inr ⟨"region: ", by simp, ?_⟩
    simp [toString, String.toList_append]
  · refine .inr ⟨"symbols: ", by simp, ?_⟩
    simp [toString, String.toList_append]
  · split at h
    · simp at h
    · rw [List.mem_singleton.1 h]
      refine .inr ⟨"warning: ", by simp, ?_⟩
      simp [toString, String.toList_append]

/-- The second run does what the first one does, and leaves out notices on standard error. What it
leaves there is nothing, or the line of the error. -/
structure Silences (arguments : Arguments) (loud quiet : Outcome) : Prop where
  exit : quiet.exit = loud.exit
  stdout : quiet.stdout = loud.stdout
  directory : quiet.directory = loud.directory
  stderr : ∃ notices, loud.stderr = unlines notices ++ quiet.stderr ∧
    ∀ line ∈ notices, IsNotice line ∧ ¬ "error: ".toList <+: line.toList
  error : if loud.exit = .failure then ∃ failure, quiet.stderr = errorLine arguments failure
    else quiet.stderr = ""

/-- If notices are left out, no error line is. -/
theorem exists_notices (notices : List String) {loud quiet : String} (h : loud = unlines notices ++ quiet)
    (hnotices : ∀ line ∈ notices, IsNotice line) :
    ∃ notices, loud = unlines notices ++ quiet ∧
      ∀ line ∈ notices, IsNotice line ∧ ¬ "error: ".toList <+: line.toList :=
  ⟨notices, h, fun line hline => ⟨hnotices line hline, (hnotices line hline).not_error⟩⟩

@[simp] theorem exitOf_ne_failure (report : Report) : exitOf report ≠ .failure := by
  unfold exitOf
  split <;> simp

theorem deliver_silences (h : arguments.quiet = false) :
    Silences arguments (deliver arguments report directory)
      (deliver { arguments with quiet := true } report directory) := by
  unfold deliver
  cases arguments.output with
  | none =>
    refine ⟨rfl, rfl, rfl, exists_notices (notes report) ?_ isNotice_of_mem_notes, ?_⟩
    · simp [h]
    · simp
  | some path =>
    cases hwrite : directory.write path (report.render arguments.format).toUTF8.data with
    | ok after =>
      simp only [hwrite]
      have hnotices : ∀ line ∈ notes report ++ [s!"output: {path}"], IsNotice line :=
        List.forall_mem_append.2 ⟨isNotice_of_mem_notes, List.forall_mem_singleton.2 (isNotice_output path)⟩
      refine ⟨rfl, rfl, rfl, exists_notices _ ?_ hnotices, ?_⟩
      · simp [h]
      · simp
    | error fault =>
      simp only [hwrite]
      refine ⟨rfl, rfl, rfl, exists_notices (notes report) ?_ isNotice_of_mem_notes, ?_⟩
      · simp [h, errorLine]
      · exact ⟨.output path fault, by simp [errorLine]⟩

/-- Without a report there are no notices to leave out. -/
theorem silences_of_failure (failure : Failure) :
    Silences arguments ⟨.failure, "", errorLine arguments failure, directory⟩
      ⟨.failure, "", errorLine arguments failure, directory⟩ :=
  ⟨rfl, rfl, rfl, exists_notices [] (by simp) (List.forall_mem_nil _), ⟨failure, rfl⟩⟩

theorem run_silences (h : arguments.quiet = false) :
    Silences arguments (run arguments directory cores)
      (run { arguments with quiet := true } directory cores) := by
  have hrespond : respond { arguments with quiet := true } (directory.read arguments.input) cores =
      respond arguments (directory.read arguments.input) cores := rfl
  unfold run
  simp only [hrespond]
  cases respond arguments (directory.read arguments.input) cores with
  | error failure => exact silences_of_failure failure
  | ok report => exact deliver_silences h

/-! ## Output files -/

/-- The second run writes to a file what the first one prints. If there is nothing to print, no file is
touched. -/
structure Redirects (before : Directory) (path : String) (printed saved : Outcome) : Prop where
  exit : saved.exit = printed.exit
  failed : printed.exit = .failure → saved = printed ∧ printed.stdout = "" ∧ saved.directory = before
  moved : printed.exit ≠ .failure → saved.stdout = "" ∧
    before.Saves saved.directory path printed.stdout.toUTF8.data

theorem run_redirects {path : String} (h : arguments.output = none) (hwrite : directory.CanWrite path) :
    Redirects directory path (run arguments directory cores)
      (run { arguments with output := some path } directory cores) := by
  have hrespond : respond { arguments with output := some path } (directory.read arguments.input) cores =
      respond arguments (directory.read arguments.input) cores := rfl
  unfold run
  simp only [hrespond]
  cases respond arguments (directory.read arguments.input) cores with
  | error failure => exact ⟨rfl, fun _ => ⟨rfl, rfl, rfl⟩, fun hne => absurd rfl hne⟩
  | ok report =>
    let saving : Arguments := { arguments with output := some path }
    obtain ⟨hexit, hprints⟩ : (deliver arguments report directory).exit = exitOf report ∧
      Shows arguments directory report (deliver arguments report directory) := deliver_printed h
    obtain ⟨hexit', hsaves⟩ : (deliver saving report directory).exit = exitOf report ∧
      Shows saving directory report (deliver saving report directory) := deliver_saved rfl hwrite
    refine ⟨hexit'.trans hexit.symm, fun hfail => ?_, fun _ => ?_⟩
    · exact absurd (hexit.symm.trans hfail) (exitOf_ne_failure report)
    · obtain ⟨hnone, hsaved⟩ := hsaves.saved path rfl
      rw [(hprints.printed h).1]
      exact ⟨hnone, hsaved⟩

/-! ## Formats -/

theorem run_congr_format (format : ReportFormat) :
    (run { arguments with format := format } directory cores).exit = (run arguments directory cores).exit ∧
      (run { arguments with format := format } directory cores).stderr =
        (run arguments directory cores).stderr := by
  have hrespond : respond { arguments with format := format } (directory.read arguments.input) cores =
      respond arguments (directory.read arguments.input) cores := rfl
  unfold run
  simp only [hrespond]
  cases respond arguments (directory.read arguments.input) cores with
  | error failure => exact ⟨rfl, rfl⟩
  | ok report =>
    simp only [deliver]
    cases arguments.output with
    | none => exact ⟨rfl, rfl⟩
    | some path =>
      simp only
      cases hwrite : directory.write path (report.render arguments.format).toUTF8.data with
      | ok after =>
        obtain ⟨after', hafter⟩ := Directory.CanWrite.write_isOk ⟨_, _, hwrite⟩
          (report.render format).toUTF8.data
        simp only [hafter]
        exact ⟨trivial, rfl⟩
      | error fault =>
        simp only [Directory.write_eq_error_of hwrite]
        exact ⟨trivial, rfl⟩

/-! ## Partial tables -/

/-- Keeping symbols makes no difference to what is scanned, nor to the result except for the symbols that
are kept. -/
theorem counts_allowPartial (hcounts : Counts arguments file region cores used result) (part : Bool) :
    ∃ result', Counts { arguments with allowPartial := part } file region cores used result' ∧
      SameUpToKept result result' := by
  have hsame : ∀ image, SameUpToKept (extract image arguments.options cores).value
      (extract image { arguments with allowPartial := part }.options cores).value :=
    fun _ => extract_sameUpToKept cores rfl
  have hfound := (hsame (region.bytes file)).notFound_iff
  have hmisses : Misses { arguments with allowPartial := part } file region cores ↔
      Misses arguments file region cores := by
    constructor
    · rintro ⟨hnone, hsome, hmissing⟩
      exact ⟨hnone, hsome, hfound.1 hmissing⟩
    · rintro ⟨hnone, hsome, hmissing⟩
      exact ⟨hnone, hsome, hfound.2 hmissing⟩
  cases hcounts with
  | chosen h => exact ⟨_, .chosen (mt hmisses.1 h), hsame (region.bytes file)⟩
  | wholeFile h => exact ⟨_, .wholeFile (hmisses.2 h), hsame file⟩

/-- The line about a failed extraction does not tell which symbols have been kept. -/
theorem errorLine_congr {failure failure' : ExtractionFailure} (hinput : arguments'.input = arguments.input)
    (hfault : failure'.fault = failure.fault) (hstage : failure'.stage = failure.stage) :
    errorLine arguments' (.extraction failure') = errorLine arguments (.extraction failure) := by
  have hmessage : failure'.message = failure.message := by
    unfold ExtractionFailure.message
    rw [hfault, hstage]
  unfold errorLine Failure.message
  simp only
  rw [hmessage, hinput]

theorem conclude_allowPartial (hpart : arguments.allowPartial = false)
    (hopen : CanOpenOutput arguments directory) (hsame : SameUpToKept result result') :
    conclude { arguments with allowPartial := true } used result' directory =
        conclude arguments used result directory ∨
      (conclude arguments used result directory).exit = .failure ∧
        (conclude { arguments with allowPartial := true } used result' directory).exit =
          .partialTable := by
  let asking : Arguments := { arguments with allowPartial := true }
  cases hsame with
  | ok table => exact .inl rfl
  | error fault stage kept kept' =>
    have hrefused : reportOf arguments used (.error ⟨fault, stage, kept⟩) = .error ⟨fault, stage, kept⟩ :=
      reportOf_eq_error_iff.2 ⟨rfl, fun h => Bool.false_ne_true (hpart.symm.trans h.1)⟩
    by_cases hstage : stage = .readingFunctions
    · subst hstage
      refine .inr ⟨by simp only [conclude, hrefused], ?_⟩
      let report : Report := ⟨arguments.input, used.sectionName, kept', some fault.message⟩
      have hreport : reportOf asking used (.error ⟨fault, .readingFunctions, kept'⟩) = .ok report := rfl
      have hdeliver : (deliver asking report directory).exit = exitOf report :=
        (deliver_of_canOpenOutput hopen).1
      simp only [conclude]
      rw [hreport]
      exact hdeliver
    · have hrefused' : reportOf asking used (.error ⟨fault, stage, kept'⟩) = .error ⟨fault, stage, kept'⟩ :=
        reportOf_eq_error_iff.2 ⟨rfl, fun h => hstage h.2⟩
      left
      simp only [conclude]
      rw [hrefused, hrefused']
      exact congrArg (fun line => (⟨.failure, "", line, directory⟩ : Outcome))
        (errorLine_congr rfl rfl rfl)

theorem run_allowPartial (hpart : arguments.allowPartial = false)
    (hopen : CanOpenOutput arguments directory) :
    run { arguments with allowPartial := true } directory cores = run arguments directory cores ∨
      (run arguments directory cores).exit = .failure ∧
        (run { arguments with allowPartial := true } directory cores).exit = .partialTable := by
  let asking : Arguments := { arguments with allowPartial := true }
  cases hload : load (directory.read arguments.input) arguments.sectionName with
  | error fault =>
    have hasking : run asking directory cores = _ := run_of_load_error hload
    exact .inl (hasking.trans (run_of_load_error hload).symm)
  | ok loaded =>
    obtain ⟨file, region⟩ := loaded
    have hcounts : Counts arguments file region cores _ _ := counts_iff.2 rfl
    obtain ⟨result', hcounts', hsame⟩ := counts_allowPartial hcounts true
    have hasking : run asking directory cores = _ := run_of_load_ok hload hcounts'
    rw [run_of_load_ok hload hcounts, hasking]
    exact conclude_allowPartial hpart hopen hsame

/-! ## Main statement -/

/-- **Flags for presentation and for resources keep the result.** The number of workers makes no difference
at all. A quiet run leaves out notices, and nothing else. An output file gets what would have been
printed. The format has no say in the exit code or in what is written to standard error. Asking for
partial tables changes only runs that fail, and of these only such that then have a partial table.

A flag that is not there yet may be put in front of whatever command line the arguments come from. -/
theorem flags_keep_result (arguments : Arguments) (directory : Directory) (cores : Nat) :
    let plain := run arguments directory cores
    (∀ jobs cores', run { arguments with jobs := jobs } directory cores' = plain) ∧
    (arguments.quiet = false →
      let silent : Arguments := { arguments with quiet := true }
      (∀ words, Arguments.parse words = .ok arguments →
        Arguments.parse ("--quiet" :: words) = .ok silent) ∧
      Silences arguments plain (run silent directory cores)) ∧
    (∀ path, arguments.output = none → directory.CanWrite path →
      let saving : Arguments := { arguments with output := some path }
      (∀ words, Arguments.parse words = .ok arguments →
        Arguments.parse (("--output=" ++ path) :: words) = .ok saving) ∧
      Redirects directory path plain (run saving directory cores)) ∧
    (∀ format,
      let other := run { arguments with format := format } directory cores
      other.exit = plain.exit ∧ other.stderr = plain.stderr) ∧
    (arguments.allowPartial = false → CanOpenOutput arguments directory →
      let asking : Arguments := { arguments with allowPartial := true }
      (∀ words, Arguments.parse words = .ok arguments →
        Arguments.parse ("--allow-partial" :: words) = .ok asking) ∧
      (run asking directory cores = plain ∨
        plain.exit = .failure ∧ (run asking directory cores).exit = .partialTable)) := by
  intro plain
  refine ⟨fun jobs cores' => run_congr_jobs jobs, ?_, ?_, run_congr_format, ?_⟩
  · intro hquiet
    exact ⟨fun words hparse => Arguments.parse_quiet hparse hquiet, run_silences hquiet⟩
  · intro path houtput hwrite
    exact ⟨fun words hparse => Arguments.parse_output hparse houtput hwrite.ne_empty,
      run_redirects houtput hwrite⟩
  · intro hpart hopen
    exact ⟨fun words hparse => Arguments.parse_allowPartial hparse hpart, run_allowPartial hpart hopen⟩

/-- With a cap of two bytes, the second name of the image is too long: the run fails, and asking for partial
tables makes a difference. With the usual cap, quiet runs and runs with an output file succeed as well. -/
theorem flags_keep_result_two_functions :
    let directory : Directory := ⟨[("input.bin", twoFunctions)]⟩
    let whole : Arguments := { input := "input.bin" }
    let capped : Arguments := { input := "input.bin", nameCap := 2 }
    let words := ["input.bin", "--max-name-length", "2"]
    (run whole directory 1).exit = .success ∧
    Silences whole (run whole directory 1) (run { whole with quiet := true } directory 1) ∧
    directory.CanWrite "out.txt" ∧
    Redirects directory "out.txt" (run whole directory 1)
      (run { whole with output := some "out.txt" } directory 1) ∧
    Arguments.parse words = .ok capped ∧
    Arguments.parse ("--allow-partial" :: words) = .ok { capped with allowPartial := true } ∧
    (run capped directory 1).exit = .failure ∧
    (run { capped with allowPartial := true } directory 1).exit = .partialTable := by
  intro directory whole capped words
  have hwrite : directory.CanWrite "out.txt" := ⟨#[], directory.put "out.txt" #[], by decide +kernel⟩
  have hfail : (run capped directory 1).exit = .failure := by decide +kernel
  have hwords : Arguments.parse words = .ok capped := by decide +kernel
  have hopen : CanOpenOutput capped directory := fun path h => nomatch h
  obtain ⟨hparse, hpart⟩ := (flags_keep_result capped directory 1).2.2.2.2 rfl hopen
  have hasking : (run { capped with allowPartial := true } directory 1).exit = .partialTable := by
    rcases hpart with h | h
    · exact absurd (congrArg Outcome.exit h) (by decide +kernel)
    · exact h.2
  exact ⟨by decide +kernel, ((flags_keep_result whole directory 1).2.1 rfl).2, hwrite,
    ((flags_keep_result whole directory 1).2.2.1 _ rfl hwrite).2, hwords, hparse words hwords, hfail, hasking⟩

end Program

end Unstrip
