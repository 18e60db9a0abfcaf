import Unstrip.Arguments
import Unstrip.Proofs.Reading

/-!
# Options in front of a command line

An option that a command line lacks may be put in front of it. Reading what follows does not come to that
parameter, so it goes on as before (`overlooks_words`), and only the argument that the option stands for is
another one (`parse_quiet`, `parse_allowPartial`, `parse_output`).
-/

namespace Unstrip.Arguments

namespace Reading

variable {reading after : Reading} {first : Parameter × String} {step next : Reading → Except Misuse Reading}

/-- The same reading, if one more parameter has been checked before all others. -/
def behind (reading : Reading) (first : Parameter × String) : Reading :=
  { reading with given := first :: reading.given }

def Lacks (reading : Reading) (parameter : Parameter) : Prop := ∀ pair ∈ reading.given, pair.1 ≠ parameter

/-- Where the step does not come to the parameter itself, it goes on behind it as it does without it. That
the parameter is lacking is asked of the reading after the step, which has all that was checked before. -/
def Overlooks (first : Parameter × String) (step : Reading → Except Misuse Reading) : Prop :=
  ∀ ⦃reading after : Reading⦄, step reading = .ok after → after.Lacks first.1 →
    reading.Lacks first.1 ∧ step (reading.behind first) = .ok (after.behind first)

theorem Overlooks.bind (h : Overlooks first step) (hnext : Overlooks first next) :
    Overlooks first fun reading => step reading >>= next := by
  intro reading after hstep hlacks
  obtain ⟨middle, hmiddle, hafter⟩ := bind_eq_ok_iff.1 hstep
  -- From the end to the beginning: only the last reading is known to lack the parameter.
  obtain ⟨hlacks, hafter⟩ := hnext hafter hlacks
  obtain ⟨hlacks, hmiddle⟩ := h hmiddle hlacks
  exact ⟨hlacks, bind_eq_ok_iff.2 ⟨_, hmiddle, hafter⟩⟩

/-- A step that does not look at what has been checked. -/
theorem overlooks_of_update {update : Reading → Reading} (hgiven : ∀ reading, (update reading).given = reading.given)
    (hbehind : ∀ reading, update (reading.behind first) = (update reading).behind first) :
    Overlooks first fun reading => .ok (update reading) := by
  rintro reading _ ⟨rfl⟩ hlacks
  refine ⟨?_, congrArg _ (hbehind reading)⟩
  rwa [Lacks, hgiven] at hlacks

/-- A step that is one of several, whichever of them it is. -/
theorem overlooks_of_forall (h : ∀ reading, ∃ choice, Overlooks first choice ∧ step reading = choice reading ∧
    step (reading.behind first) = choice (reading.behind first)) : Overlooks first step := by
  intro reading after hstep hlacks
  obtain ⟨choice, hchoice, heq, heq'⟩ := h reading
  rw [heq] at hstep
  obtain ⟨hlacks, hstep⟩ := hchoice hstep hlacks
  exact ⟨hlacks, heq'.trans hstep⟩

theorem overlooks_ite {condition : Reading → Bool}
    (hcondition : ∀ reading, condition (reading.behind first) = condition reading)
    (h : Overlooks first step) (hnext : Overlooks first next) :
    Overlooks first fun reading => if condition reading = true then step reading else next reading := by
  refine overlooks_of_forall fun reading => ?_
  by_cases hreading : condition reading = true
  · exact ⟨step, h, if_pos hreading, if_pos ((hcondition reading).trans hreading)⟩
  · exact ⟨next, hnext, if_neg hreading, if_neg ((hcondition reading).symm ▸ hreading)⟩

theorem overlooks_throw (misuse : Misuse) : Overlooks first fun _ => throw misuse := by
  intro reading after h
  cases h

/-- A parameter is taken over if its value is there and acceptable, and if it has not been given before. -/
theorem accept_eq_ok_iff {parameter : Parameter} {value? : Option String} :
    reading.accept parameter value? = .ok after ↔
      ¬ (parameter.takesValue = true ∧ value?.isNone = true) ∧ reading.Lacks parameter ∧
        checkValue parameter (value?.getD "") = .ok () ∧
        after = { reading with given := reading.given ++ [(parameter, value?.getD "")] } := by
  have hlacks : ¬ reading.given.any (·.1 = parameter) = true ↔ reading.Lacks parameter := by
    simp only [Lacks, List.any_eq_true, decide_eq_true_eq, not_exists, not_and, ne_eq]
  unfold accept
  simp only [guard_eq_ok_iff, hlacks, bind_eq_ok_iff, pure_eq_ok_iff]
  constructor
  · rintro ⟨hvalue, hnew, ⟨⟩, hcheck, hafter⟩
    exact ⟨hvalue, hnew, hcheck, hafter⟩
  · rintro ⟨hvalue, hnew, hcheck, hafter⟩
    exact ⟨hvalue, hnew, (), hcheck, hafter⟩

theorem overlooks_accept (parameter : Parameter) (value? : Option String) :
    Overlooks first (·.accept parameter value?) := by
  intro reading after h hlacks
  obtain ⟨hvalue, hnew, hcheck, rfl⟩ := accept_eq_ok_iff.1 h
  obtain ⟨hlacks, hne⟩ := List.forall_mem_append.1 hlacks
  have hne : first.1 ≠ parameter := (List.forall_mem_singleton.1 hne).symm
  have hnew' : (reading.behind first).Lacks parameter := List.forall_mem_cons.2 ⟨hne, hnew⟩
  exact ⟨hlacks, accept_eq_ok_iff.2 ⟨hvalue, hnew', hcheck, rfl⟩⟩

theorem overlooks_settle : Overlooks first settle := by
  intro reading after h hlacks
  unfold settle at h
  cases hpending : reading.pending with
  | none =>
    rw [hpending] at h
    cases h
    exact ⟨hlacks, by simp only [settle, behind, hpending]⟩
  | some pair =>
    rw [hpending] at h
    obtain ⟨hlacks, h⟩ := overlooks_accept _ _ h hlacks
    exact ⟨hlacks, by simpa only [settle, behind, hpending] using h⟩

theorem overlooks_begin (parameter : Parameter) : Overlooks first (·.begin parameter) :=
  overlooks_settle.bind (overlooks_of_update (fun _ => rfl) fun _ => rfl)

theorem overlooks_complete (parameter : Parameter) (value? : Option String) :
    Overlooks first (·.complete parameter value?) :=
  overlooks_settle.bind (overlooks_accept parameter value?)

theorem overlooks_file (text : String) : Overlooks first (word.file · text) := by
  have hupdate : Overlooks first fun reading =>
      .ok { reading with pending := some (.file, some text), hasFile := true } :=
    overlooks_of_update (fun _ => rfl) fun _ => rfl
  intro reading after h hlacks
  obtain ⟨hfile, h⟩ := guard_eq_ok_iff.1 h
  obtain ⟨hlacks, h⟩ := overlooks_settle.bind hupdate h hlacks
  exact ⟨hlacks, guard_eq_ok_iff.2 ⟨hfile, h⟩⟩

theorem overlooks_word (text : String) : Overlooks first (·.word text) := by
  refine overlooks_of_forall fun reading => ?_
  rcases hpending : reading.pending with _ | ⟨parameter, _ | value⟩
  · exact ⟨_, overlooks_file text, by simp only [word, hpending], by simp only [word, behind, hpending]⟩
  · by_cases hwants : reading.wantsValue = true ∧ (! reading.onlyFiles) = true
    · have hupdate : Overlooks first fun reading =>
          .ok { reading with pending := some (parameter, some text), wantsValue := false } :=
        overlooks_of_update (fun _ => rfl) fun _ => rfl
      exact ⟨_, hupdate, by simp only [word, hpending, if_pos hwants], by
        simp only [word, behind, hpending, if_pos hwants]⟩
    · exact ⟨_, overlooks_file text, by simp only [word, hpending, if_neg hwants], by
        simp only [word, behind, hpending, if_neg hwants]⟩
  · exact ⟨_, overlooks_file text, by simp only [word, hpending], by simp only [word, behind, hpending]⟩

theorem overlooks_long (text : List Char) : Overlooks first (·.long text) := by
  simp only [long]
  generalize Parameter.ofLong? _ = parameter?
  cases parameter? with
  | none => exact overlooks_throw _
  | some parameter =>
    simp only
    generalize text.dropWhile _ = tail
    cases tail <;> cases parameter.takesValue <;> simp only
    · exact overlooks_complete parameter none
    · exact overlooks_begin parameter
    · exact overlooks_throw _
    · exact overlooks_complete parameter _

theorem overlooks_letters (letters : List Char) : Overlooks first (·.letters letters) := by
  induction letters with
  | nil => exact overlooks_of_update (fun _ => rfl) fun _ => rfl
  | cons letter rest ih =>
    simp only [Reading.letters]
    cases Parameter.ofLetter? letter with
    | none => exact overlooks_throw _
    | some parameter =>
      by_cases htakes : parameter.takesValue = true
      · simp only [if_pos htakes]
        split
        · exact overlooks_begin parameter
        · exact overlooks_complete parameter _
        · exact overlooks_complete parameter _
      · simp only [if_neg htakes]
        exact (overlooks_complete parameter none).bind ih

/-- Every argument is read without regard to a parameter that it does not give. -/
theorem overlooks_read (argument : String) : Overlooks first (·.read argument) := by
  unfold read
  refine overlooks_ite (fun _ => rfl) (overlooks_word argument) ?_
  split
  · exact overlooks_of_update (fun _ => rfl) fun _ => rfl
  · exact overlooks_long _
  · exact overlooks_letters _
  · exact overlooks_word argument

theorem overlooks_words (words : List String) : Overlooks first fun reading => words.foldlM read reading := by
  induction words with
  | nil => exact overlooks_of_update (fun _ => rfl) fun _ => rfl
  | cons word words ih =>
    simp only [List.foldlM_cons]
    exact (overlooks_read word).bind ih

/-! ## Finished readings -/

theorem settle_of_pending (h : reading.pending = none) : reading.settle = .ok reading := by
  simp only [settle, h]

theorem pending_of_settle (h : reading.settle = .ok after) : after.pending = none := by
  unfold settle at h
  split at h
  · cases h
    assumption
  · obtain ⟨-, -, -, rfl⟩ := accept_eq_ok_iff.1 h
    rfl

/-- The arguments that the checked parameters stand for, with the given file. -/
def arguments (reading : Reading) (input : String) : Arguments where
  input := input
  sectionName := reading.value? .sectionName
  nameCap := ((reading.value? .nameCap).bind number?).getD 4096
  allowPartial := (reading.value? .allowPartial).isSome
  jobs := ((reading.value? .jobs).bind number?).getD 1
  format := ((reading.value? .format).bind format?).getD .text
  output := reading.value? .output
  quiet := (reading.value? .quiet).isSome

theorem finish_eq_ok_iff {result : Arguments} (h : reading.pending = none) :
    reading.finish = .ok result ↔
      ∃ input, reading.value? .file = some input ∧ result = reading.arguments input := by
  unfold finish
  rw [settle_of_pending h]
  cases hfile : reading.value? .file with
  | none => simp [hfile, bind, Except.bind, throw, throwThe, MonadExceptOf.throw]
  | some input => simp [hfile, arguments, bind, Except.bind, pure, Except.pure, eq_comm]

theorem value?_behind (parameter : Parameter) : (reading.behind first).value? parameter =
    if first.1 = parameter then some first.2 else reading.value? parameter := by
  by_cases h : first.1 = parameter <;> simp [value?, behind, h]

theorem lacks_of_value?_eq_none {parameter : Parameter} (h : reading.value? parameter = none) :
    reading.Lacks parameter := by
  intro pair hpair heq
  simp only [value?, Option.map_eq_none_iff, List.find?_eq_none, decide_eq_true_eq] at h
  exact h pair hpair heq

end Reading

variable {words : List String} {arguments : Arguments}

/-- What a command line comes to, with and without an option in front of it that it lacks. -/
theorem exists_reading_of_parse (h : parse words = .ok arguments) :
    ∃ (settled : Reading) (input : String), arguments = settled.arguments input ∧
      ∀ (word : String) (first : Parameter × String), Reading.read {} word = .ok (Reading.behind {} first) →
        settled.Lacks first.1 → first.1 ≠ .file →
        parse (word :: words) = .ok ((settled.behind first).arguments input) := by
  obtain ⟨reading, hread, hfinish⟩ := bind_eq_ok_iff.1 h
  obtain ⟨settled, hsettle, hvalues⟩ := bind_eq_ok_iff.1 hfinish
  have hpending := Reading.pending_of_settle hsettle
  have hfinish : settled.finish = .ok arguments := by
    rw [Reading.finish, Reading.settle_of_pending hpending]
    exact hvalues
  obtain ⟨input, hfile, harguments⟩ := (Reading.finish_eq_ok_iff hpending).1 hfinish
  refine ⟨settled, input, harguments, fun word first hword hlacks hne => ?_⟩
  obtain ⟨hlacks, hsettle⟩ := Reading.overlooks_settle hsettle hlacks
  obtain ⟨-, hread⟩ := Reading.overlooks_words words hread hlacks
  -- The first word leads from the beginning to the same beginning behind its parameter.
  have hread : words.foldlM Reading.read (Reading.behind {} first) = .ok (reading.behind first) := hread
  have hpending : (settled.behind first).pending = none := hpending
  have hfile : (settled.behind first).value? .file = some input :=
    (Reading.value?_behind .file).trans ((if_neg hne).trans hfile)
  have hfinish := (Reading.finish_eq_ok_iff hpending).2 ⟨input, hfile, rfl⟩
  rw [Reading.finish, Reading.settle_of_pending hpending] at hfinish
  unfold parse
  rw [List.foldlM_cons, hword]
  exact bind_eq_ok_iff.2 ⟨_, hread, bind_eq_ok_iff.2 ⟨_, hsettle, hfinish⟩⟩

/-- A command line that is not quiet is made so by an option in front. -/
theorem parse_quiet (h : parse words = .ok arguments) (hquiet : arguments.quiet = false) :
    parse ("--quiet" :: words) = .ok { arguments with quiet := true } := by
  obtain ⟨settled, input, rfl, hparse⟩ := exists_reading_of_parse h
  have hlacks : settled.Lacks .quiet :=
    Reading.lacks_of_value?_eq_none (Option.isSome_eq_false_iff.1 hquiet |> Option.isNone_iff_eq_none.1)
  rw [hparse "--quiet" (.quiet, "") rfl hlacks (by decide)]
  simp [Reading.arguments, Reading.value?_behind]

/-- A command line that does not ask for partial tables is made to by an option in front. -/
theorem parse_allowPartial (h : parse words = .ok arguments) (hpart : arguments.allowPartial = false) :
    parse ("--allow-partial" :: words) = .ok { arguments with allowPartial := true } := by
  obtain ⟨settled, input, rfl, hparse⟩ := exists_reading_of_parse h
  have hlacks : settled.Lacks .allowPartial :=
    Reading.lacks_of_value?_eq_none (Option.isSome_eq_false_iff.1 hpart |> Option.isNone_iff_eq_none.1)
  rw [hparse "--allow-partial" (.allowPartial, "") rfl hlacks (by decide)]
  simp [Reading.arguments, Reading.value?_behind]

/-- The option for an output file is read with the path that is attached to it. -/
theorem read_output {path : String} (h : path ≠ "") :
    Reading.read {} ("--output=" ++ path) = .ok (Reading.behind {} (.output, path)) := by
  have hchars : ("--output=" ++ path).toList = '-' :: '-' :: ("output".toList ++ '=' :: path.toList) :=
    String.toList_append
  have hread : Reading.read {} ("--output=" ++ path) =
      Reading.long {} ("output".toList ++ '=' :: path.toList) := by
    unfold Reading.read
    rw [if_neg Bool.false_ne_true, hchars]
    rfl
  have hlong : Reading.long {} ("output".toList ++ '=' :: path.toList) =
      Reading.complete {} .output (some (String.ofList path.toList)) := rfl
  have hcheck : checkValue .output path = .ok () := if_neg (by simpa using h)
  have haccept : Reading.accept {} .output (some path) = .ok (Reading.behind {} (.output, path)) :=
    Reading.accept_eq_ok_iff.2 ⟨by simp, List.forall_mem_nil _, hcheck, rfl⟩
  rw [hread, hlong, String.ofList_toList]
  exact haccept

/-- A command line without an output file is given one by an option in front. -/
theorem parse_output {path : String} (h : parse words = .ok arguments) (houtput : arguments.output = none)
    (hpath : path ≠ "") :
    parse (("--output=" ++ path) :: words) = .ok { arguments with output := some path } := by
  obtain ⟨settled, input, rfl, hparse⟩ := exists_reading_of_parse h
  have hlacks : settled.Lacks .output := Reading.lacks_of_value?_eq_none houtput
  rw [hparse _ (.output, path) (read_output hpath) hlacks (show Parameter.output ≠ .file by decide)]
  simp [Reading.arguments, Reading.value?_behind]

end Unstrip.Arguments
