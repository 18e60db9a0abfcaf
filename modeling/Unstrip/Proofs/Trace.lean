import Unstrip.Proofs.Failure
import Unstrip.Proofs.Telling

/-!
# The trace that an extraction leaves

Events are told at many places: a stage when it is reached, a disagreement of addresses while its record
is resolved, the end of it all by the extraction itself. `Course` lists the ways in which an extraction
with one worker can go, each with all that is told on the way; so its log can be read as an account of
its result (`log_fits_result`).
-/

namespace Unstrip

/-! ## Stages in order -/

namespace Stage

/-- The steps lead from one stage to another, and each of them leads to the stage that comes next. -/
inductive Leads : Stage → List (Stage × Stage) → Stage → Prop
  | stay (stage : Stage) : Leads stage [] stage
  | go {stage next last : Stage} {steps : List (Stage × Stage)} (h : stage.next? = some next)
      (rest : Leads next steps last) : Leads stage ((stage, next) :: steps) last

variable {first last : Stage} {steps : List (Stage × Stage)}

theorem Leads.rank_le (h : Leads first steps last) : ∀ step ∈ steps, first.rank ≤ step.1.rank := by
  induction h with
  | stay stage => simp
  | @go stage next last steps hnext _ ih =>
    intro step hstep
    have hrank := rank_next? hnext
    rcases List.mem_cons.1 hstep with rfl | hstep
    · exact Nat.le_refl _
    · have := ih step hstep
      omega

/-- There are as many steps as there are stages on the way. -/
theorem Leads.rank_add_length (h : Leads first steps last) : first.rank + steps.length = last.rank := by
  induction h with
  | stay stage => rfl
  | @go stage next last steps hnext _ ih =>
    have hrank := rank_next? hnext
    rw [List.length_cons]
    omega

/-- Stages only rise, so no step is made twice. -/
theorem Leads.nodup (h : Leads first steps last) : steps.Nodup := by
  induction h with
  | stay stage => exact List.nodup_nil
  | @go stage next last steps hnext hrest ih =>
    refine List.nodup_cons.2 ⟨fun hmem => ?_, ih⟩
    have hrank := rank_next? hnext
    have hle : next.rank ≤ stage.rank := hrest.rank_le _ hmem
    omega

end Stage

/-! ## The ways in which an extraction can go -/

namespace Extraction

open Records

def lastStage : Except ExtractionFailure SymbolTable → Stage
  | .ok _ => .complete
  | .error failure => failure.stage

/-- What is told up to the first record. -/
def approach (anchor : Anchor) (header : Header) : List Event :=
  [.signatureFound anchor, .stageReached .unstarted .anchorFound, .headerDecoded header,
    .stageReached .anchorFound .headerDecoded]

def entering : Event := .stageReached .headerDecoded .readingFunctions

/-- What is told up to the last record that is resolved. -/
def reading (anchor : Anchor) (header : Header) (symbols : Array Symbol) : List Event :=
  approach anchor header ++ entering :: warnings symbols

/-- What is told of a bad record. -/
def parting (options : Options) (stop : InterruptedBuild) (count : Nat) : List Event :=
  if options.allowPartial then [.partKept stop.symbols.size count stop.fault] else []

@[simp] theorem stopAt_log (stage : Stage) (stop : InterruptedBuild) (count : Nat) (options : Options) :
    (stopAt stage stop count options).log = parting options stop count := by
  unfold stopAt parting
  split <;> rfl

/-- The ways in which an extraction with one worker can go: what it comes to, and what is told. -/
inductive Course (image : Image) (options : Options) :
    Except ExtractionFailure SymbolTable → List Event → Prop
  | unfound {fault : Fault} (hfind : Anchor.find image = .error fault) :
      Course image options (.error ⟨fault, .unstarted, SymbolTable.blank⟩) (searchEvents (.error fault))
  | unread {anchor : Anchor} {fault : Fault} (hfind : Anchor.find image = .ok anchor)
      (hdecode : Header.decode image anchor = .error fault) :
      Course image options (.error ⟨fault, .anchorFound, SymbolTable.blank⟩)
        [.signatureFound anchor, .stageReached .unstarted .anchorFound]
  | stopped {anchor : Anchor} {header : Header} {stop : InterruptedBuild}
      (hfind : Anchor.find image = .ok anchor) (hdecode : Header.decode image anchor = .ok header)
      (hbuild : (Records.ofHeader image header options.nameCap).buildInline.value = .error stop) :
      Course image options (.error ⟨stop.fault, .readingFunctions, kept options stop⟩)
        (reading anchor header stop.symbols ++ parting options stop header.functionCount)
  | finished {anchor : Anchor} {header : Header} {symbols : Array Symbol}
      (hfind : Anchor.find image = .ok anchor) (hdecode : Header.decode image anchor = .ok header)
      (hbuild : (Records.ofHeader image header options.nameCap).buildInline.value = .ok symbols) :
      Course image options (.ok (SymbolTable.ofArray symbols))
        (reading anchor header symbols ++ [.stageReached .readingFunctions .complete,
          .recovered (SymbolTable.ofArray symbols).size header.release])

end Extraction

open Extraction Records

section
variable {image : Image} {header : Header} {options : Options} {cores : Nat}

/-- One worker resolves all records itself. -/
theorem buildTable_inline (hone : options.workerCount cores = 1) :
    buildTable image header options cores = (do
      let built ← (Records.ofHeader image header options.nameCap).buildInline
      return built.map SymbolTable.ofArray) := by
  have hfew : ¬ 1 < min 1 (Pool.chunkCount (Records.ofHeader image header options.nameCap).count) := by
    omega
  rw [buildTable, hone, Records.build]
  simp only [hfew, if_false]

/-- Every extraction with one worker goes one of these ways. -/
theorem course_of_extract (hone : options.workerCount cores = 1) :
    Course image options (extract image options cores).value (extract image options cores).log := by
  unfold extract
  cases hfind : Anchor.find image with
  | error fault =>
    simp only [Logged.value_bind, Logged.log_bind, Logged.value_pure, Logged.log_pure, List.append_nil]
    exact .unfound hfind
  | ok anchor =>
    cases hdecode : Header.decode image anchor with
    | error fault =>
      simp only [Logged.value_bind, Logged.log_bind, hdecode]
      exact .unread hfind hdecode
    | ok header =>
      simp only [Logged.value_bind, Logged.log_bind, hdecode, buildTable_inline hone]
      cases hbuild : (Records.ofHeader image header options.nameCap).buildInline.value with
      | error stop =>
        have hcourse := Course.stopped hfind hdecode hbuild
        simpa [Except.map, reading, approach, entering, advance, log_of_buildInline_error hbuild]
          using hcourse
      | ok symbols =>
        have hcourse := Course.finished hfind hdecode hbuild
        simpa [Except.map, reading, approach, entering, advance, log_of_buildInline_ok hbuild]
          using hcourse

end

/-! ## What each part of a course tells -/

namespace Event

/-- Only a warning tells of a disagreement or of symbols that are kept. -/
theorem of_level_debug {event : Event} (h : event.level = .debug) :
    event.mismatch? = none ∧ event.kept? = none ∧ event.level ≠ .info := by
  cases event <;> simp_all [level, mismatch?, kept?]

theorem ofSymbol?_eq_some {symbol : Symbol} {event : Event} (h : ofSymbol? symbol = some event) :
    event.mismatch? = some symbol ∧ event.step? = none ∧ event.kept? = none ∧ event.level = .warn := by
  obtain ⟨metadataAddress, hset, rfl⟩ := Option.map_eq_some_iff.1 h
  cases symbol
  simp only at hset
  subst hset
  exact ⟨rfl, rfl, rfl, rfl⟩

end Event

namespace Records

variable (symbols : Array Symbol)

theorem of_mem_warnings : ∀ event ∈ warnings symbols,
    event.mismatch?.isSome = true ∧ event.step? = none ∧ event.kept? = none ∧ event.level = .warn := by
  intro event hevent
  obtain ⟨symbol, -, hsymbol⟩ := List.mem_filterMap.1 hevent
  obtain ⟨hmismatch, hrest⟩ := Event.ofSymbol?_eq_some hsymbol
  exact ⟨by simp [hmismatch], hrest⟩

@[simp] theorem steps_warnings : (warnings symbols).filterMap Event.step? = [] :=
  List.filterMap_eq_nil_iff.2 fun event hevent => (of_mem_warnings symbols event hevent).2.1

/-- The warnings name the symbols whose second address is set, in their order. -/
@[simp] theorem mismatches_warnings :
    (warnings symbols).filterMap Event.mismatch? =
      symbols.toList.filter fun symbol => symbol.metadataAddress.isSome := by
  rw [warnings, List.filterMap_filterMap, ← List.filterMap_eq_filter]
  refine List.filterMap_congr fun symbol _ => ?_
  cases hevent : Event.ofSymbol? symbol with
  | none =>
    have hunset : symbol.metadataAddress = none := Option.map_eq_none_iff.1 hevent
    simp [Option.guard, hunset]
  | some event =>
    have hset : symbol.metadataAddress ≠ none := fun h => by simp [Event.ofSymbol?, h] at hevent
    simp [Option.guard, (Event.ofSymbol?_eq_some hevent).1, Option.isSome_iff_ne_none.2 hset]

end Records

namespace Extraction

section
variable (anchor : Anchor) (header : Header) (symbols : Array Symbol)

theorem level_searchEvents (found : Except Fault Anchor) :
    ∀ event ∈ searchEvents found, event.level = .debug := by
  unfold searchEvents
  split <;> simp [Event.level]

@[simp] theorem steps_searchEvents (found : Except Fault Anchor) :
    (searchEvents found).filterMap Event.step? = [] := by
  unfold searchEvents
  split <;> simp [Event.step?]

theorem level_approach : ∀ event ∈ approach anchor header, event.level = .debug := by
  simp [approach, Event.level]

@[simp] theorem steps_reading :
    (reading anchor header symbols).filterMap Event.step? = [(.unstarted, .anchorFound),
      (.anchorFound, .headerDecoded), (.headerDecoded, .readingFunctions)] := by
  simp [reading, approach, entering, List.filterMap_cons, Event.step?]

@[simp] theorem mismatches_reading :
    (reading anchor header symbols).filterMap Event.mismatch? =
      symbols.toList.filter fun symbol => symbol.metadataAddress.isSome := by
  simp [reading, approach, entering, List.filterMap_cons, Event.mismatch?]

theorem of_mem_reading :
    ∀ event ∈ reading anchor header symbols, event.kept? = none ∧ event.level ≠ .info := by
  refine List.forall_mem_append.2 ⟨?_, List.forall_mem_cons.2 ⟨by decide, ?_⟩⟩
  · intro event hevent
    exact (Event.of_level_debug (level_approach _ _ event hevent)).2
  · intro event hevent
    obtain ⟨-, -, hkept, hlevel⟩ := of_mem_warnings symbols event hevent
    exact ⟨hkept, by simp [hlevel]⟩

/-- Up to the last record, no symbols are told to be kept. -/
theorem exists_kept_append_iff {back : List Event} :
    (∃ event ∈ reading anchor header symbols ++ back, event.kept?.isSome = true) ↔
      ∃ event ∈ back, event.kept?.isSome = true := by
  constructor
  · rintro ⟨event, hevent, hkept⟩
    rcases List.mem_append.1 hevent with hmem | hmem
    · simp [(of_mem_reading _ _ _ event hmem).1] at hkept
    · exact ⟨event, hmem, hkept⟩
  · rintro ⟨event, hmem, hkept⟩
    exact ⟨event, List.mem_append_right _ hmem, hkept⟩

theorem of_mem_parting (options : Options) (stop : InterruptedBuild) (count : Nat) :
    ∀ event ∈ parting options stop count,
      event.step? = none ∧ event.mismatch? = none ∧ event.level = .warn := by
  unfold parting
  split <;> simp [Event.step?, Event.mismatch?, Event.level]

end

end Extraction

/-! ## What the log says about the result -/

namespace Extraction

/-- The symbols that an extraction resolves, whether it keeps them or not: all of its table, or those
before the first bad record. -/
inductive Resolves (image : Image) (options : Options) :
    Except ExtractionFailure SymbolTable → List Symbol → Prop
  | all (table : SymbolTable) : Resolves image options (.ok table) table.toList
  | upTo {failure : ExtractionFailure} {anchor : Anchor} {header : Header} {symbols : Array Symbol}
      (hstage : failure.stage = .readingFunctions) (hfind : Anchor.find image = .ok anchor)
      (hdecode : Header.decode image anchor = .ok header) (hcount : symbols.size < header.functionCount)
      (hgood : ∀ i (h : i < symbols.size),
        (Records.ofHeader image header options.nameCap).symbolAt i = .ok symbols[i])
      (hbad : (Records.ofHeader image header options.nameCap).symbolAt symbols.size =
        .error failure.fault) : Resolves image options (.error failure) symbols.toList
  | nothing {failure : ExtractionFailure} (hstage : failure.stage ≠ .readingFunctions) :
      Resolves image options (.error failure) []

/-- The log is an account of the result. -/
structure Accounts (image : Image) (options : Options) (result : Except ExtractionFailure SymbolTable)
    (log : List Event) : Prop where
  stages : Stage.Leads .unstarted (log.filterMap Event.step?) (lastStage result)
  once : (log.filterMap Event.step?).Nodup
  unstarted : lastStage result = .unstarted → log.filterMap Event.step? = []
  mismatches : ∃ symbols, Resolves image options result symbols ∧
    log.filterMap Event.mismatch? = symbols.filter fun symbol => symbol.metadataAddress.isSome
  /-- All disagreements are told in one piece, as soon as records are read. -/
  placed : log.filterMap Event.mismatch? ≠ [] → ∃ front told back,
    log = front ++ entering :: (told ++ back) ∧ (∀ event ∈ told, event.mismatch?.isSome = true) ∧
      ∀ event ∈ front ++ back, event.mismatch? = none
  finished : ∀ table, result = .ok table → ∃ front release,
    log = front ++ [.recovered table.size release] ∧ ∀ event ∈ front, event.level ≠ .info
  unfinished : ∀ failure, result = .error failure → ∀ event ∈ log, event.level ≠ .info
  kept_iff : (∃ event ∈ log, event.kept?.isSome = true) ↔
    options.allowPartial = true ∧ ∃ failure, result = .error failure ∧ failure.stage = .readingFunctions
  kept_last : ∀ failure, result = .error failure → failure.stage = .readingFunctions →
    options.allowPartial = true → ∃ front anchor header, Anchor.find image = .ok anchor ∧
      Header.decode image anchor = .ok header ∧
      log = front ++ [.partKept failure.kept.size header.functionCount failure.fault] ∧
      ∀ event ∈ front, event.kept? = none

namespace Course

variable {image : Image} {options : Options} {result : Except ExtractionFailure SymbolTable}
  {log : List Event}

theorem stages (h : Course image options result log) :
    Stage.Leads .unstarted (log.filterMap Event.step?) (lastStage result) := by
  cases h with
  | unfound =>
    rw [steps_searchEvents]
    exact .stay _
  | unread => exact .go rfl (.stay _)
  | stopped =>
    rw [List.filterMap_append, steps_reading,
      List.filterMap_eq_nil_iff.2 fun event hevent => (of_mem_parting _ _ _ event hevent).1]
    exact .go rfl (.go rfl (.go rfl (.stay _)))
  | finished =>
    rw [List.filterMap_append, steps_reading]
    exact .go rfl (.go rfl (.go rfl (.go rfl (.stay _))))

theorem mismatches (h : Course image options result log) :
    ∃ symbols, Resolves image options result symbols ∧
      log.filterMap Event.mismatch? = symbols.filter fun symbol => symbol.metadataAddress.isSome := by
  cases h with
  | unfound =>
    refine ⟨[], .nothing (by simp), List.filterMap_eq_nil_iff.2 fun event hevent => ?_⟩
    exact (Event.of_level_debug (level_searchEvents _ event hevent)).1
  | unread => exact ⟨[], .nothing (by simp), rfl⟩
  | @stopped anchor header stop hfind hdecode hbuild =>
    obtain ⟨hcount, hgood, hbad⟩ := buildInline_eq_error_iff.1 hbuild
    refine ⟨stop.symbols.toList, .upTo rfl hfind hdecode hcount hgood hbad, ?_⟩
    rw [List.filterMap_append, mismatches_reading, List.append_right_eq_self]
    exact List.filterMap_eq_nil_iff.2 fun event hevent => (of_mem_parting _ _ _ event hevent).2.1
  | @finished anchor header symbols =>
    refine ⟨symbols.toList, .all (SymbolTable.ofArray symbols), ?_⟩
    simp [Event.mismatch?]

/-- Whatever follows the records, the disagreements stand between. -/
theorem placed_of_back {anchor : Anchor} {header : Header} {symbols : Array Symbol} {back : List Event}
    (hback : ∀ event ∈ back, event.mismatch? = none) : ∃ front told back',
      reading anchor header symbols ++ back = front ++ entering :: (told ++ back') ∧
      (∀ event ∈ told, event.mismatch?.isSome = true) ∧ ∀ event ∈ front ++ back', event.mismatch? = none := by
  refine ⟨approach anchor header, warnings symbols, back, by simp [reading], ?_, ?_⟩
  · exact fun event hevent => (of_mem_warnings symbols event hevent).1
  · refine List.forall_mem_append.2 ⟨fun event hevent => ?_, hback⟩
    exact (Event.of_level_debug (level_approach _ _ event hevent)).1

theorem placed (h : Course image options result log) (hsome : log.filterMap Event.mismatch? ≠ []) :
    ∃ front told back, log = front ++ entering :: (told ++ back) ∧
      (∀ event ∈ told, event.mismatch?.isSome = true) ∧ ∀ event ∈ front ++ back, event.mismatch? = none := by
  cases h with
  | unfound =>
    refine absurd (List.filterMap_eq_nil_iff.2 fun event hevent => ?_) hsome
    exact (Event.of_level_debug (level_searchEvents _ event hevent)).1
  | unread => exact absurd rfl hsome
  | stopped => exact placed_of_back fun event hevent => (of_mem_parting _ _ _ event hevent).2.1
  | finished => exact placed_of_back (by simp [Event.mismatch?])

theorem finished_last {table : SymbolTable} (h : Course image options (.ok table) log) :
    ∃ front release, log = front ++ [.recovered table.size release] ∧
      ∀ event ∈ front, event.level ≠ .info := by
  cases h with
  | @finished anchor header symbols =>
    refine ⟨reading anchor header symbols ++ [.stageReached .readingFunctions .complete], header.release,
      by simp, ?_⟩
    refine List.forall_mem_append.2 ⟨?_, by simp [Event.level]⟩
    exact fun event hevent => (of_mem_reading _ _ _ event hevent).2

theorem unfinished {failure : ExtractionFailure} (h : Course image options (.error failure) log) :
    ∀ event ∈ log, event.level ≠ .info := by
  cases h with
  | unfound => exact fun event hevent => (Event.of_level_debug (level_searchEvents _ event hevent)).2.2
  | unread => simp [Event.level]
  | stopped =>
    refine List.forall_mem_append.2 ⟨fun event hevent => (of_mem_reading _ _ _ event hevent).2, ?_⟩
    intro event hevent
    simp [(of_mem_parting _ _ _ event hevent).2.2]

theorem kept_iff (h : Course image options result log) :
    (∃ event ∈ log, event.kept?.isSome = true) ↔ options.allowPartial = true ∧
      ∃ failure, result = .error failure ∧ failure.stage = .readingFunctions := by
  cases h with
  | unfound =>
    refine iff_of_false ?_ (by simp)
    rintro ⟨event, hevent, hkept⟩
    simp [(Event.of_level_debug (level_searchEvents _ event hevent)).2.1] at hkept
  | unread => simp [Event.kept?]
  | stopped =>
    rw [exists_kept_append_iff]
    by_cases hpart : options.allowPartial = true <;> simp [parting, hpart, Event.kept?]
  | finished =>
    rw [exists_kept_append_iff]
    simp [Event.kept?]

theorem kept_last {failure : ExtractionFailure} (h : Course image options (.error failure) log)
    (hstage : failure.stage = .readingFunctions) (hpart : options.allowPartial = true) :
    ∃ front anchor header, Anchor.find image = .ok anchor ∧ Header.decode image anchor = .ok header ∧
      log = front ++ [.partKept failure.kept.size header.functionCount failure.fault] ∧
      ∀ event ∈ front, event.kept? = none := by
  cases h with
  | unfound | unread => simp at hstage
  | @stopped anchor header stop hfind hdecode =>
    refine ⟨reading anchor header stop.symbols, anchor, header, hfind, hdecode, ?_, ?_⟩
    · simp [parting, kept, hpart]
    · exact fun event hevent => (of_mem_reading _ _ _ event hevent).1

theorem accounts (h : Course image options result log) : Accounts image options result log where
  stages := h.stages
  once := h.stages.nodup
  unstarted hlast := by
    have hlength := h.stages.rank_add_length
    rw [hlast] at hlength
    exact List.length_eq_zero_iff.1 (Nat.add_left_cancel hlength)
  mismatches := h.mismatches
  placed := h.placed
  finished := by
    rintro table rfl
    exact h.finished_last
  unfinished := by
    rintro failure rfl
    exact h.unfinished
  kept_iff := h.kept_iff
  kept_last := by
    rintro failure rfl
    exact h.kept_last

end Course

end Extraction

/-- **The log is an account of the result.** With one worker, the stages that are told lead from the
first to the one at which the extraction ends; each resolved symbol with two addresses is told once, in
order, as soon as records are read; the table is told last, if there is one, and otherwise the symbols that
are kept. The wording of an event, and how much it matters, tell what kind it is; and a build comes to
the same when each disagreement is told while its record is resolved. -/
theorem log_fits_result (image : Image) (options : Options) (cores : Nat)
    (hone : options.workerCount cores = 1) :
    Accounts image options (extract image options cores).value (extract image options cores).log ∧
    (∀ event : Event,
      ((event.OpensWith "Parse stage: " ↔ event.step?.isSome = true) ∧
        (event.OpensWith "Address mismatch for " ↔ event.mismatch?.isSome = true) ∧
        (event.OpensWith "Keeping " ↔ event.kept?.isSome = true)) ∧
      (event.level = .warn ↔ event.mismatch?.isSome = true ∨ event.kept?.isSome = true) ∧
      (event.level = .info ↔ ∃ count release, event = .recovered count release)) ∧
    ∀ header, buildTable image header options cores = (do
      let built ← (Records.ofHeader image header options.nameCap).tellFrom header.functionCount 0 #[]
      return built.map SymbolTable.ofArray) := by
  refine ⟨(course_of_extract hone).accounts, ?_, ?_⟩
  · exact fun event => ⟨event.kinds_of_wording, event.kinds_of_level⟩
  · intro header
    exact buildTable_inline hone

/-- The first function has two addresses, and the name of the second is too long. -/
theorem log_fits_result_two_addresses :
    let image : Image := twoFunctions.set! 65 1
    let options : Options := { nameCap := 2, allowPartial := true }
    options.workerCount 1 = 1 ∧
    (extract image options 1).log =
      [.signatureFound ⟨1, .go116⟩, .stageReached .unstarted .anchorFound,
        .headerDecoded (Header.readAt image 1 .go116 4), .stageReached .anchorFound .headerDecoded,
        .stageReached .headerDecoded .readingFunctions, .addressMismatch "a" 4096 4097,
        .partKept 1 2 (.corrupt (.unterminated 39 2))] ∧
    Accounts image options (extract image options 1).value (extract image options 1).log := by
  intro image options
  have hone : options.workerCount 1 = 1 := rfl
  refine ⟨hone, ?_, (log_fits_result image options 1 hone).1⟩
  decide +kernel

end Unstrip
