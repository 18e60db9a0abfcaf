import Unstrip.Proofs.Reading
import Unstrip.Proofs.Telling

/-!
# Building a table does not depend on who resolves what

`collectFrom` stops at the first failure, so what it returns is fixed by the results of the indices
up to there (`collect_eq_none_iff`, `collect_eq_some_iff`). A pool hands the same results to the same
scan, whatever its schedule (`poolOutcome_of_isFinished`); so every build comes to what one worker
would have come to inline (`buildTable_value`).
-/

namespace Unstrip

/-! ## The scan for the first failure -/

section
variable {ε α : Type} {f g : Nat → Except ε α}

theorem collectFrom_congr {count start : Nat} {done : Array α}
    (h : ∀ i, start ≤ i → i < start + count → f i = g i) :
    collectFrom f count start done = collectFrom g count start done := by
  induction count generalizing start done with
  | zero => rfl
  | succ count ih =>
    rw [collectFrom, collectFrom, h start (Nat.le_refl _) (by omega)]
    split
    · exact ih fun i hle hlt => h i (by omega) (by omega)
    · rfl

theorem ok_push {done : Array α} {a : α} (hdone : ∀ i (h : i < done.size), f i = .ok done[i])
    (ha : f done.size = .ok a) : ∀ i (h : i < (done.push a).size), f i = .ok (done.push a)[i] := by
  intro i h
  rw [Array.getElem_push]
  split
  · exact hdone i _
  · have : i = done.size := by simp at h; omega
    rw [this, ha]

theorem collectFrom_eq_none_iff {count : Nat} {done all : Array α}
    (hdone : ∀ i (h : i < done.size), f i = .ok done[i]) :
    collectFrom f count done.size done = (all, none) ↔
      all.size = done.size + count ∧ ∀ i (h : i < all.size), f i = .ok all[i] := by
  induction count generalizing done with
  | zero =>
    simp only [collectFrom, Prod.mk.injEq, and_true, Nat.add_zero]
    constructor
    · rintro rfl; exact ⟨rfl, hdone⟩
    · rintro ⟨hsize, hall⟩
      refine Array.ext hsize.symm fun i h1 h2 => ?_
      exact Except.ok.inj ((hdone i h1).symm.trans (hall i h2))
  | succ count ih =>
    rw [collectFrom]
    split
    · rename_i a ha
      have := ih (ok_push hdone ha)
      rw [Array.size_push] at this
      rw [this, Nat.add_assoc, Nat.add_comm 1]
    · rename_i e he
      simp only [Prod.mk.injEq, reduceCtorEq, and_false, false_iff]
      rintro ⟨hsize, hall⟩
      have := hall done.size (by omega)
      rw [he] at this
      cases this

theorem collectFrom_eq_some_iff {count : Nat} {done all : Array α} {e : ε}
    (hdone : ∀ i (h : i < done.size), f i = .ok done[i]) :
    collectFrom f count done.size done = (all, some e) ↔
      all.size < done.size + count ∧ done.size ≤ all.size ∧
        (∀ i (h : i < all.size), f i = .ok all[i]) ∧ f all.size = .error e := by
  induction count generalizing done with
  | zero =>
    simp only [collectFrom, Prod.mk.injEq, reduceCtorEq, and_false, false_iff]
    omega
  | succ count ih =>
    rw [collectFrom]
    split
    · rename_i a ha
      have := ih (ok_push hdone ha)
      rw [Array.size_push] at this
      rw [this]
      constructor
      · rintro ⟨h1, h2, hall, he⟩; exact ⟨by omega, by omega, hall, he⟩
      · rintro ⟨h1, h2, hall, he⟩
        refine ⟨by omega, ?_, hall, he⟩
        -- the scan cannot have stopped here, where the result is good
        rcases Nat.lt_or_ge done.size all.size with hlt | hge
        · omega
        · have : all.size = done.size := by omega
          rw [this, ha] at he
          cases he
    · rename_i e' he'
      simp only [Prod.mk.injEq, Option.some.injEq]
      constructor
      · rintro ⟨rfl, rfl⟩; exact ⟨by omega, Nat.le_refl _, hdone, he'⟩
      · rintro ⟨-, hle, hall, he⟩
        have hsize : all.size = done.size := by
          rcases Nat.lt_or_ge done.size all.size with hlt | hge
          · have := hall done.size hlt
            rw [he'] at this
            cases this
          · omega
        refine ⟨Array.ext hsize.symm fun i h1 h2 => ?_, ?_⟩
        · exact Except.ok.inj ((hdone i h1).symm.trans (hall i h2))
        · rw [hsize, he'] at he
          exact Except.error.inj he

/-- The scan finds no failure if and only if all results are good. -/
theorem collect_eq_none_iff {count : Nat} {all : Array α} :
    collectFrom f count 0 #[] = (all, none) ↔
      all.size = count ∧ ∀ i (h : i < all.size), f i = .ok all[i] := by
  have hdone : ∀ i (h : i < (#[] : Array α).size), f i = .ok (#[] : Array α)[i] := by simp
  have := @collectFrom_eq_none_iff ε α f count #[] all hdone
  simpa using this

/-- The scan stops at the first failure and keeps the results before it. -/
theorem collect_eq_some_iff {count : Nat} {all : Array α} {e : ε} :
    collectFrom f count 0 #[] = (all, some e) ↔
      all.size < count ∧ (∀ i (h : i < all.size), f i = .ok all[i]) ∧ f all.size = .error e := by
  have hdone : ∀ i (h : i < (#[] : Array α).size), f i = .ok (#[] : Array α)[i] := by simp
  have := @collectFrom_eq_some_iff ε α f count #[] all e hdone
  simpa using this

end

namespace DescriptorTable

variable {table : DescriptorTable}

/-- Good descriptors one after another can be gathered. -/
theorem exists_read {n : Nat} (h : ∀ i, i < n → ∃ descriptor, table.get i = .ok descriptor) :
    ∃ read : Array Descriptor, read.size = n ∧ ∀ i (hi : i < read.size), table.get i = .ok read[i] := by
  induction n with
  | zero => exact ⟨#[], rfl, fun i hi => absurd hi (Nat.not_lt_zero i)⟩
  | succ n ih =>
    obtain ⟨read, rfl, hall⟩ := ih fun i hi => h i (Nat.lt_succ_of_lt hi)
    obtain ⟨descriptor, hlast⟩ := h read.size (Nat.lt_succ_self _)
    exact ⟨read.push descriptor, Array.size_push _, ok_push hall hlast⟩

theorem collect_eq_ok_iff {read : Array Descriptor} :
    table.collect = .ok read ↔
      read.size = table.count ∧ ∀ i (h : i < read.size), table.get i = .ok read[i] := by
  rw [← collect_eq_none_iff, collect]
  split <;> rename_i hscan <;> simp [hscan]

theorem collect_eq_error_iff {stop : Interruption} :
    table.collect = .error stop ↔
      stop.expected = table.count ∧ stop.read.size < table.count ∧
        (∀ i (h : i < stop.read.size), table.get i = .ok stop.read[i]) ∧
        table.get stop.read.size = .error stop.fault := by
  rw [← collect_eq_some_iff, collect]
  obtain ⟨read, expected, fault⟩ := stop
  split <;> rename_i hscan
  · simp [hscan]
  · simp only [hscan, Except.error.injEq, Interruption.mk.injEq, Prod.mk.injEq, Option.some.injEq]
    constructor
    · rintro ⟨hread, hexpected, hfault⟩; exact ⟨hexpected.symm, hread, hfault⟩
    · rintro ⟨hexpected, hread, hfault⟩; exact ⟨hread, hexpected.symm, hfault⟩

end DescriptorTable

namespace Records

variable {records : Records}

/-! ## Inline builds -/

theorem outcome_eq_ok_iff {result : Array Symbol × Option Fault} {symbols : Array Symbol} :
    outcome result = .ok symbols ↔ result = (symbols, none) := by
  obtain ⟨found, _ | fault⟩ := result <;> simp [outcome]

theorem outcome_eq_error_iff {result : Array Symbol × Option Fault} {stop : InterruptedBuild} :
    outcome result = .error stop ↔ result = (stop.symbols, some stop.fault) := by
  obtain ⟨found, _ | fault⟩ := result
  · simp [outcome]
  · obtain ⟨fault', symbols⟩ := stop
    simp only [outcome, Except.error.injEq, InterruptedBuild.mk.injEq, Prod.mk.injEq,
      Option.some.injEq]
    exact And.comm

theorem buildInline_value :
    records.buildInline.value = outcome (collectFrom records.symbolAt records.count 0 #[]) := by
  rw [buildInline_eq]

theorem buildInline_eq_ok_iff {symbols : Array Symbol} :
    records.buildInline.value = .ok symbols ↔
      symbols.size = records.count ∧ ∀ i (h : i < symbols.size), records.symbolAt i = .ok symbols[i] :=
  buildInline_value ▸ outcome_eq_ok_iff.trans collect_eq_none_iff

theorem buildInline_eq_error_iff {stop : InterruptedBuild} :
    records.buildInline.value = .error stop ↔
      stop.symbols.size < records.count ∧
        (∀ i (h : i < stop.symbols.size), records.symbolAt i = .ok stop.symbols[i]) ∧
        records.symbolAt stop.symbols.size = .error stop.fault :=
  buildInline_value ▸ outcome_eq_error_iff.trans collect_eq_some_iff

/-- No build fails for want of a result. -/
theorem buildInline_ne_unresolved {stop : InterruptedBuild} (h : records.buildInline.value = .error stop)
    (i : Nat) : stop.fault ≠ .corrupt (.unresolved i) := by
  obtain ⟨-, -, hfault⟩ := buildInline_eq_error_iff.1 h
  have hkind := records.symbolAt_failsOnlyWith _ _ hfault
  rintro he
  rw [he] at hkind
  exact hkind

/-- The events about symbols, in their order. -/
def warnings (symbols : Array Symbol) : List Event := symbols.toList.filterMap Event.ofSymbol?

theorem log_of_buildInline_ok {symbols : Array Symbol} (h : records.buildInline.value = .ok symbols) :
    records.buildInline.log = warnings symbols := by
  rw [buildInline_value, outcome_eq_ok_iff] at h
  simp only [buildInline_eq, h, warnings]

theorem log_of_buildInline_error {stop : InterruptedBuild} (h : records.buildInline.value = .error stop) :
    records.buildInline.log = warnings stop.symbols := by
  rw [buildInline_value, outcome_eq_error_iff] at h
  simp only [buildInline_eq, h, warnings]

/-! ## Pooled builds -/

/-- **A pool that has come to its end agrees with one worker**, on success and on failure. -/
theorem poolOutcome_of_isFinished {workers : Nat} {schedule : List Pool.Action}
    (h : ((Pool.State.initial records.count workers).run records.symbolAt schedule).isFinished = true) :
    records.poolOutcome ((Pool.State.initial records.count workers).run records.symbolAt schedule) =
      records.buildInline.value := by
  rw [buildInline_value, poolOutcome, collectFrom_congr fun i _ hi =>
    Pool.State.finished_resultAt records.symbolAt h (by simpa using hi)]

theorem buildPooled_value {workers : Nat} (hpool : 0 < workers) :
    (records.buildPooled workers).value = records.buildInline.value :=
  poolOutcome_of_isFinished (Pool.State.finalState_isFinished records.symbolAt hpool)

/-- The number of workers makes no difference to the table or to the failure. -/
theorem build_value (workers : Nat) :
    (records.build workers).value = records.buildInline.value.map SymbolTable.ofArray := by
  simp only [build]
  split
  · rename_i hmany
    simp only [Logged.value_bind, Logged.value_pure]
    rw [buildPooled_value (by omega)]
  · simp only [Logged.value_bind, Logged.value_pure]

end Records

section
variable {image : Image} {header : Header} {options : Options} {cores : Nat}

theorem buildTable_value :
    (buildTable image header options cores).value =
      (Records.ofHeader image header options.nameCap).buildInline.value.map SymbolTable.ofArray :=
  Records.build_value _

/-- A build succeeds if every record does. -/
theorem buildTable_eq_ok_iff {table : SymbolTable} :
    (buildTable image header options cores).value = .ok table ↔
      ∃ symbols : Array Symbol, symbols.size = header.functionCount ∧
        (∀ i (h : i < symbols.size),
          (Records.ofHeader image header options.nameCap).symbolAt i = .ok symbols[i]) ∧
        table = SymbolTable.ofArray symbols := by
  rw [buildTable_value]
  constructor
  · intro h
    cases hinline : (Records.ofHeader image header options.nameCap).buildInline.value with
    | error stop => rw [hinline] at h; cases h
    | ok symbols =>
      rw [hinline] at h
      obtain ⟨hsize, hall⟩ := Records.buildInline_eq_ok_iff.1 hinline
      exact ⟨symbols, hsize, hall, (Except.ok.inj h).symm⟩
  · rintro ⟨symbols, hsize, hall, rfl⟩
    rw [Records.buildInline_eq_ok_iff.2 ⟨hsize, hall⟩]
    rfl

/-- A build fails at the first bad record, and keeps the symbols before it. -/
theorem buildTable_eq_error_iff {stop : InterruptedBuild} :
    (buildTable image header options cores).value = .error stop ↔
      stop.symbols.size < header.functionCount ∧
        (∀ i (h : i < stop.symbols.size),
          (Records.ofHeader image header options.nameCap).symbolAt i = .ok stop.symbols[i]) ∧
        (Records.ofHeader image header options.nameCap).symbolAt stop.symbols.size =
          .error stop.fault := by
  rw [buildTable_value]
  constructor
  · intro h
    cases hinline : (Records.ofHeader image header options.nameCap).buildInline.value with
    | ok symbols => rw [hinline] at h; cases h
    | error stop' =>
      rw [hinline] at h
      cases h
      exact Records.buildInline_eq_error_iff.1 hinline
  · intro h
    rw [Records.buildInline_eq_error_iff.2 h]
    rfl

/-- The symbols that a build comes to, whether or not a record stopped it. -/
def resolved : Except InterruptedBuild SymbolTable → List Symbol
  | .ok table => table.toList
  | .error stop => stop.symbols.toList

/-- What is resolved are the records from the first on, up to the last or to one that is bad. -/
theorem exists_resolved (image : Image) (header : Header) (options : Options) (cores : Nat) :
    ∃ symbols : Array Symbol,
      resolved (buildTable image header options cores).value = symbols.toList ∧
      symbols.size ≤ header.functionCount ∧
      (∀ i (h : i < symbols.size),
        (Records.ofHeader image header options.nameCap).symbolAt i = .ok symbols[i]) ∧
      (symbols.size = header.functionCount ∨ ∃ fault,
        (Records.ofHeader image header options.nameCap).symbolAt symbols.size = .error fault) := by
  cases hbuild : (buildTable image header options cores).value with
  | ok table =>
    obtain ⟨symbols, hsize, hall, rfl⟩ := buildTable_eq_ok_iff.1 hbuild
    exact ⟨symbols, rfl, Nat.le_of_eq hsize, hall, .inl hsize⟩
  | error stop =>
    obtain ⟨hlt, hall, hbad⟩ := buildTable_eq_error_iff.1 hbuild
    exact ⟨stop.symbols, rfl, Nat.le_of_lt hlt, hall, .inr ⟨_, hbad⟩⟩

/-- The symbols are those of the records at the same places. -/
theorem symbolAt_of_resolved {image : Image} {header : Header} {options : Options} {cores i : Nat}
    {symbol : Symbol} (h : (resolved (buildTable image header options cores).value)[i]? = some symbol) :
    (Records.ofHeader image header options.nameCap).symbolAt i = .ok symbol := by
  obtain ⟨symbols, hsymbols, -, hall, -⟩ := exists_resolved image header options cores
  rw [hsymbols, Array.getElem?_toList] at h
  obtain ⟨hi, rfl⟩ := Array.getElem?_eq_some_iff.1 h
  exact hall i hi

/-- If all that one build can resolve, another one resolves in the same way, the other gets at least
as far. -/
theorem resolved_isPrefix {image image' : Image} {header header' : Header} {options options' : Options}
    {cores cores' : Nat} (hcount : header.functionCount ≤ header'.functionCount)
    (h : ∀ i symbol, (Records.ofHeader image header options.nameCap).symbolAt i = .ok symbol →
      (Records.ofHeader image' header' options'.nameCap).symbolAt i = .ok symbol) :
    resolved (buildTable image header options cores).value <+:
      resolved (buildTable image' header' options' cores').value := by
  obtain ⟨first, hfirst, hle, hall, -⟩ := exists_resolved image header options cores
  obtain ⟨second, hsecond, -, hall', hend⟩ := exists_resolved image' header' options' cores'
  have hlen : first.size ≤ second.size := by
    rcases hend with hend | ⟨fault, hend⟩
    · omega
    · rcases Nat.lt_or_ge second.size first.size with hlt | hge
      · rw [h _ _ (hall _ hlt)] at hend
        cases hend
      · exact hge
  rw [hfirst, hsecond, List.prefix_iff_getElem]
  refine ⟨by simpa using hlen, fun i hi => ?_⟩
  have hi : i < first.size := by simpa using hi
  have heq := (h _ _ (hall i hi)).symm.trans (hall' i (by omega))
  simpa using Except.ok.inj heq

end

end Unstrip
