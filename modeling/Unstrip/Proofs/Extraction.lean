import Unstrip.Extraction
import Unstrip.Proofs.Build

/-!
# What an extraction comes to

`extract_value` leaves the log aside and says what an extraction comes to, stage by stage. The stage
of a failure is told by what failed, and of the options only the cap on names has a say in anything
but the symbols that are kept (`failure_keeps_good_records`).
-/

namespace Unstrip

namespace Extraction

/-- The symbols that are kept of a build that a record stopped. -/
def kept (options : Options) (stop : InterruptedBuild) : SymbolTable :=
  if options.allowPartial then SymbolTable.ofArray stop.symbols else SymbolTable.blank

@[simp] theorem stopAt_value (stage : Stage) (stop : InterruptedBuild) (count : Nat) (options : Options) :
    (stopAt stage stop count options).value = ⟨stop.fault, stage, kept options stop⟩ := by
  unfold stopAt kept
  split <;> rfl

/-- What an extraction comes to once the header is known. -/
def build (image : Image) (options : Options) (cores : Nat) (header : Header) :
    Except ExtractionFailure SymbolTable :=
  match (buildTable image header options cores).value with
  | .error stop => .error ⟨stop.fault, .readingFunctions, kept options stop⟩
  | .ok table => .ok table

end Extraction

/-- The outcome of an extraction, without its log. -/
theorem extract_value (image : Image) (options : Options) (cores : Nat) :
    (extract image options cores).value =
      match Anchor.find image with
      | .error fault => .error ⟨fault, .unstarted, SymbolTable.blank⟩
      | .ok anchor =>
        match Header.decode image anchor with
        | .error fault => .error ⟨fault, .anchorFound, SymbolTable.blank⟩
        | .ok header => Extraction.build image options cores header := by
  simp only [extract, Logged.value_bind]
  cases Anchor.find image with
  | error fault => rfl
  | ok anchor =>
    simp only [Logged.value_bind]
    cases Header.decode image anchor with
    | error fault => rfl
    | ok header =>
      simp only [Logged.value_bind, Extraction.build]
      cases (buildTable image header options cores).value with
      | error stop =>
        simp only [Logged.value_bind, Logged.value_pure, Extraction.stopAt_value]
        rfl
      | ok table => rfl

/-- An extraction succeeds if every stage of it does. -/
theorem extract_eq_ok_iff {image : Image} {options : Options} {cores : Nat} {table : SymbolTable} :
    (extract image options cores).value = .ok table ↔
      ∃ anchor header, Anchor.find image = .ok anchor ∧ Header.decode image anchor = .ok header ∧
        (buildTable image header options cores).value = .ok table := by
  rw [extract_value]
  cases Anchor.find image with
  | error fault => simp
  | ok anchor =>
    cases hheader : Header.decode image anchor with
    | error fault => simp [hheader]
    | ok header =>
      simp only [Extraction.build]
      cases hbuild : (buildTable image header options cores).value with
      | error stop => simp [hheader, hbuild]
      | ok found => simp [hheader, hbuild]

/-- What two extractions have to agree on if only the kept symbols may differ. -/
def ExtractionFailure.place (failure : ExtractionFailure) : Fault × Stage :=
  (failure.fault, failure.stage)

theorem extract_mapError_place {image : Image} {options options' : Options} (cores cores' : Nat)
    (hcap : options'.nameCap = options.nameCap) :
    (extract image options' cores').value.mapError ExtractionFailure.place =
      (extract image options cores).value.mapError ExtractionFailure.place := by
  rw [extract_value, extract_value]
  cases Anchor.find image with
  | error fault => rfl
  | ok anchor =>
    simp only
    cases Header.decode image anchor with
    | error fault => rfl
    | ok header =>
      simp only [Extraction.build, buildTable_value, hcap]
      cases (Records.ofHeader image header options.nameCap).buildInline.value with
      | error stop => rfl
      | ok symbols => rfl

/-- **A failure keeps exactly the records before the first bad one.** A build that fails does so at
some record `k`: all records before it are good and are the symbols that it keeps, its fault is that
of record `k`, and any other build whose records agree up to `k` fails in the same way. An extraction
reports this fault, and keeps these symbols if it is asked to. Whether it is asked to, and how many
workers it has, makes no difference to a table, to a fault or to its stage. -/
theorem failure_keeps_good_records (image : Image) (options : Options) (cores : Nat) :
    (∀ header stop, (buildTable image header options cores).value = .error stop →
      let records := Records.ofHeader image header options.nameCap
      ∃ k, k < header.functionCount ∧ stop.symbols.size = k ∧
        (∀ i, i < k → ∃ descriptor entry, records.descriptors.get i = .ok descriptor ∧
          records.names.follow descriptor = .ok entry ∧
          stop.symbols[i]? = some (symbolFrom descriptor entry)) ∧
        (records.descriptors.get k = .error stop.fault ∨
          ∃ descriptor, records.descriptors.get k = .ok descriptor ∧
            records.names.follow descriptor = .error stop.fault) ∧
        ∀ image' header' options' cores', k < header'.functionCount →
          (∀ i, i ≤ k →
            (Records.ofHeader image' header' options'.nameCap).symbolAt i = records.symbolAt i) →
          (buildTable image' header' options' cores').value = .error stop) ∧
    (∀ anchor header stop, Anchor.find image = .ok anchor → Header.decode image anchor = .ok header →
      (buildTable image header options cores).value = .error stop →
      (extract image options cores).value = .error
        ⟨stop.fault, .readingFunctions,
          if options.allowPartial then SymbolTable.ofArray stop.symbols else SymbolTable.blank⟩) ∧
    (∀ options' cores', options'.nameCap = options.nameCap →
      (extract image options' cores').value.mapError ExtractionFailure.place =
        (extract image options cores).value.mapError ExtractionFailure.place) := by
  refine ⟨?_, ?_, fun options' cores' hcap => extract_mapError_place cores cores' hcap⟩
  · intro header stop h records
    obtain ⟨hlt, hgood, hbad⟩ := buildTable_eq_error_iff.1 h
    refine ⟨stop.symbols.size, hlt, rfl, fun i hi => ?_, Records.symbolAt_eq_error_iff.1 hbad, ?_⟩
    · obtain ⟨descriptor, entry, hd, he, hs⟩ := Records.symbolAt_eq_ok_iff.1 (hgood i hi)
      exact ⟨descriptor, entry, hd, he, by rw [Array.getElem?_eq_getElem hi, hs]⟩
    · intro image' header' options' cores' hlt' hagree
      refine buildTable_eq_error_iff.2 ⟨hlt', fun i hi => ?_, ?_⟩
      · rw [hagree i (Nat.le_of_lt hi)]; exact hgood i hi
      · rw [hagree _ (Nat.le_refl _)]; exact hbad
  · intro anchor header stop hfind hdecode h
    rw [extract_value, hfind]
    simp only [hdecode, Extraction.build, h, Extraction.kept]

/-- A table of two functions, `a` and `main`, behind one zero byte. -/
def twoFunctions : Image :=
  #[0, 250, 255, 255, 255, 0, 0, 1, 4, 2, 0, 0, 0, 0, 0, 0, 0, 36, 0, 0, 0, 43, 0, 0, 0, 43, 0, 0, 0,
    43, 0, 0, 0, 48, 0, 0, 0, 97, 0, 109, 97, 105, 110, 0, 0, 0, 0, 0, 0, 0, 16, 0, 0, 16, 0, 0, 0,
    16, 16, 0, 0, 24, 0, 0, 0, 0, 16, 0, 0, 0, 0, 0, 0, 16, 16, 0, 0, 2, 0, 0, 0]

/-- With a cap of two bytes the second name is too long, and the first symbol is kept. -/
theorem failure_keeps_good_records_two_functions :
    let options : Options := { nameCap := 2, allowPartial := true }
    let header := Header.readAt twoFunctions 1 .go116 4
    let stop : InterruptedBuild := ⟨.corrupt (.unterminated 39 2), #[⟨"a", 4096, none⟩]⟩
    Anchor.find twoFunctions = .ok ⟨1, .go116⟩ ∧
    Header.decode twoFunctions ⟨1, .go116⟩ = .ok header ∧
    (buildTable twoFunctions header options 1).value = .error stop ∧
    (extract twoFunctions options 1).value =
      .error ⟨stop.fault, .readingFunctions, SymbolTable.ofArray stop.symbols⟩ := by
  intro options header stop
  have hfind : Anchor.find twoFunctions = .ok ⟨1, .go116⟩ := rfl
  have hdecode : Header.decode twoFunctions ⟨1, .go116⟩ = .ok header := rfl
  have hbuild : (buildTable twoFunctions header options 1).value = .error stop := by decide +kernel
  exact ⟨hfind, hdecode, hbuild,
    (failure_keeps_good_records twoFunctions options 1).2.1 _ _ _ hfind hdecode hbuild⟩

end Unstrip
