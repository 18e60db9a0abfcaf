import Unstrip.Proofs.Machine.Pool

/-!
# No extraction traps

The whole way from an image to its symbols, with the operations of the machine. A pool of workers goes
through an arbitrary schedule, and an extraction comes to the same end under all of them
(`Converges`). Main statement: in an image of less than 2^63 bytes no unchecked operation goes wrong,
neither in an extraction nor in a reading from any other place (`runs_without_trap`). Storage is taken
to suffice.
-/

namespace Unstrip.Machine

/-! ## Runs of a schedule -/

/-- What depends on a schedule never traps. The schedule may end too early, but it can always be continued
to an end, and the end does not depend on it. -/
structure Converges {α : Type} (run : List Pool.Action → Except Stop (Option α)) (result : α) : Prop where
  outcome : ∀ schedule, run schedule = .ok none ∨ run schedule = .ok (some result)
  continued : ∀ schedule, ∃ rest, run (schedule ++ rest) = .ok (some result)

namespace Converges

variable {α β : Type} {run : List Pool.Action → Except Stop (Option α)} {a : α} {b : β}

theorem of_eq (h : ∀ schedule, run schedule = .ok (some a)) : Converges run a :=
  ⟨fun schedule => .inr (h schedule), fun _ => ⟨[], h _⟩⟩

theorem bind (h : Converges run a) {f : Option α → Except Stop (Option β)} (hnone : f none = .ok none)
    (hsome : f (some a) = .ok (some b)) : Converges (fun schedule => run schedule >>= f) b := by
  refine ⟨fun schedule => ?_, fun schedule => ?_⟩
  · rcases h.outcome schedule with hrun | hrun
    · exact .inl (by rw [hrun]; exact hnone)
    · exact .inr (by rw [hrun]; exact hsome)
  · obtain ⟨rest, hrun⟩ := h.continued schedule
    exact ⟨rest, by rw [hrun]; exact hsome⟩

end Converges

/-! ## Symbol tables -/

/-- The neighbours in a list. -/
def windows : List Symbol → List (List Symbol)
  | first :: second :: rest => [first, second] :: windows (second :: rest)
  | _ => []

def inOrder (window : List Symbol) : Except Stop Bool := do
  let first ← item window 0
  let second ← item window 1
  return first.address ≤ second.address

theorem allM_inOrder_eq_ok (symbols : List Symbol) :
    (windows symbols).allM inOrder = .ok (isAscending (symbols.map (·.address))) := by
  induction symbols with
  | nil => rfl
  | cons first rest ih =>
    cases rest with
    | nil => rfl
    | cons second rest =>
      have hpair : inOrder [first, second] = .ok (decide (first.address ≤ second.address)) := rfl
      rw [windows, List.allM, hpair]
      simp only [List.map_cons, isAscending] at ih ⊢
      by_cases hle : first.address ≤ second.address
      · rw [decide_eq_true hle, Bool.true_and]
        exact ih
      · rw [decide_eq_false hle, Bool.false_and]
        rfl

def tableOf (symbols : Array Symbol) : Except Stop SymbolTable := do
  let isSorted ← (windows symbols.toList).allM inOrder
  return ⟨symbols, isSorted⟩

theorem tableOf_eq_ok (symbols : Array Symbol) : tableOf symbols = .ok (SymbolTable.ofArray symbols) := by
  rw [tableOf, allM_inOrder_eq_ok]
  rfl

/-! ## Builds -/

def collectFrom (resolve : Nat → Except Stop Symbol) :
    (count start : Nat) → Array Symbol → Except Stop (Array Symbol × Option Fault)
  | 0, _, done => return (done, none)
  | count + 1, start, done => do
    let next ← add start 1
    match ← attempt (resolve start) with
    | .ok symbol => collectFrom resolve count next (done.push symbol)
    | .error fault => return (done, some fault)

theorem collectFrom_eq_ok {resolve : Nat → Except Stop Symbol} {results : Nat → Pool.Result}
    (hresolve : ∀ i, ComesTo (resolve i) (results i)) {count start : Nat}
    (h : start + count < wordLimit) (done : Array Symbol) :
    collectFrom resolve count start done = .ok (Unstrip.collectFrom results count start done) := by
  induction count generalizing start done with
  | zero => rfl
  | succ count ih =>
    rw [collectFrom, Unstrip.collectFrom, add_eq_ok (by omega), (hresolve start).attempt]
    cases results start with
    | ok symbol => exact ih (by omega) _
    | error fault => rfl

def buildInline (records : Records) : Except Stop (Option (Except InterruptedBuild (Array Symbol))) := do
  let result ← collectFrom (symbolAt records) records.count 0 #[]
  return some (Records.outcome result)

/-- Resolves the records with a pool. The slots are read when the pool has come to its end. -/
def buildPooled (records : Records) (workers : Nat) (schedule : List Pool.Action) :
    Except Stop (Option (Except InterruptedBuild (Array Symbol))) := do
  let queue ← chunks records.count
  let start := { Pool.State.initial records.count workers with queue := queue }
  let final ← moves (symbolAt records) start schedule
  return if final.isFinished then some (records.poolOutcome final) else none

/-- What a build comes to, with the symbols as a table. -/
def finish : Option (Except InterruptedBuild (Array Symbol)) →
    Except Stop (Option (Except InterruptedBuild SymbolTable))
  | none => return none
  | some (.error stop) => return some (.error stop)
  | some (.ok symbols) => return some (.ok (← tableOf symbols))

theorem finish_eq_ok (built : Except InterruptedBuild (Array Symbol)) :
    finish (some built) = .ok (some (built.map SymbolTable.ofArray)) := by
  cases built with
  | error stop => rfl
  | ok symbols =>
    rw [finish, tableOf_eq_ok]
    rfl

def build (image : Image) (header : Header) (options : Options) (cores : Nat)
    (schedule : List Pool.Action) : Except Stop (Option (Except InterruptedBuild SymbolTable)) := do
  let descriptors ← descriptorTable image header
  let names ← nameTable image header options.nameCap
  let records : Records := ⟨descriptors, names⟩
  let workers := min (options.workerCount cores) (Pool.chunkCount records.count)
  let built ← if 1 < workers then buildPooled records workers schedule else buildInline records
  finish built

section
variable {image : Image} {header : Header} (hsize : image.size < 1 <<< 63) (h : header.Sound image.size)
include hsize h

theorem functionCount_lt : header.functionCount + Pool.chunkSize < wordLimit := by
  have hcount := h.functionCount
  have hword := succ_lt_wordLimit hsize
  have hlimit : 1024 < wordLimit := by decide
  unfold Pool.chunkSize
  omega

theorem symbolAt_eq (nameCap i : Nat) :
    ComesTo (symbolAt (.ofHeader image header nameCap) i)
      ((Records.ofHeader image header nameCap).symbolAt i) :=
  symbolAt_comesTo (succ_lt_wordLimit hsize) h nameCap i

theorem buildInline_eq_ok (nameCap : Nat) :
    buildInline (.ofHeader image header nameCap) =
      .ok (some (Records.ofHeader image header nameCap).buildInline.value) := by
  have hcount : 0 + (Records.ofHeader image header nameCap).count < wordLimit := by
    have hcount := functionCount_lt hsize h
    show 0 + header.functionCount < wordLimit
    omega
  rw [buildInline, collectFrom_eq_ok (symbolAt_eq hsize h nameCap) hcount, Records.buildInline_value]
  rfl

/-- What a pool comes to under a schedule. -/
theorem buildPooled_eq_ok (nameCap workers : Nat) (schedule : List Pool.Action) :
    buildPooled (.ofHeader image header nameCap) workers schedule =
      .ok (if ((Pool.State.initial header.functionCount workers).run
          (Records.ofHeader image header nameCap).symbolAt schedule).isFinished
        then some (Records.ofHeader image header nameCap).buildInline.value else none) := by
  have hcount := functionCount_lt hsize h
  have hmoves := moves_eq_ok (by omega) (symbolAt_eq hsize h nameCap)
    (Pool.State.accounts_initial (Records.ofHeader image header nameCap).symbolAt
      header.functionCount workers) schedule
  have hqueue : chunks (Records.ofHeader image header nameCap).count =
      .ok (Pool.chunks header.functionCount) := chunks_eq_ok hcount
  rw [buildPooled, hqueue]
  refine ComesTo.eq_ok (.bind_ok rfl (.bind_ok hmoves ?_))
  by_cases hend : ((Pool.State.initial header.functionCount workers).run
      (Records.ofHeader image header nameCap).symbolAt schedule).isFinished = true
  · rw [if_pos hend, if_pos hend, ← Records.poolOutcome_of_isFinished hend]
    rfl
  · rw [if_neg hend, if_neg hend]
    rfl

theorem buildPooled_converges (nameCap : Nat) {workers : Nat} (hworkers : 0 < workers) :
    Converges (buildPooled (.ofHeader image header nameCap) workers)
      (Records.ofHeader image header nameCap).buildInline.value := by
  refine ⟨fun schedule => ?_, fun schedule => ?_⟩
  · rw [buildPooled_eq_ok hsize h]
    split
    · exact .inr rfl
    · exact .inl rfl
  · obtain ⟨rest, hrest⟩ := @Pool.State.exists_finished (Records.ofHeader image header nameCap).symbolAt
      ((Pool.State.initial header.functionCount workers).run
        (Records.ofHeader image header nameCap).symbolAt schedule)
      (by simpa using hworkers)
    refine ⟨rest, ?_⟩
    rw [buildPooled_eq_ok hsize h, Pool.State.run_append, if_pos hrest]

theorem build_converges (options : Options) (cores : Nat) :
    Converges (build image header options cores) (buildTable image header options cores).value := by
  rw [buildTable_value]
  by_cases hpool : 1 < min (options.workerCount cores) (Pool.chunkCount header.functionCount)
  · have hbuild : build image header options cores = fun schedule =>
        buildPooled (.ofHeader image header options.nameCap)
          (min (options.workerCount cores) (Pool.chunkCount header.functionCount)) schedule >>= finish := by
      funext schedule
      rw [build, descriptorTable_eq_ok h, nameTable_eq_ok h]
      exact if_pos hpool
    rw [hbuild]
    exact (buildPooled_converges hsize h options.nameCap (by omega)).bind rfl (finish_eq_ok _)
  · refine .of_eq fun schedule => ?_
    rw [build, descriptorTable_eq_ok h, nameTable_eq_ok h]
    refine (if_neg hpool).trans (ComesTo.eq_ok (.bind_ok (buildInline_eq_ok hsize h options.nameCap) ?_))
    exact finish_eq_ok _

end

/-! ## Extractions -/

def stopAt (options : Options) (stop : InterruptedBuild) : Except Stop ExtractionFailure := do
  if options.allowPartial then return ⟨stop.fault, .readingFunctions, ← tableOf stop.symbols⟩
  else return ⟨stop.fault, .readingFunctions, SymbolTable.blank⟩

def conclude (options : Options) : Option (Except InterruptedBuild SymbolTable) →
    Except Stop (Option (Except ExtractionFailure SymbolTable))
  | none => return none
  | some (.ok table) => return some (.ok table)
  | some (.error stop) => return some (.error (← stopAt options stop))

def extract (image : Image) (options : Options) (cores : Nat) (schedule : List Pool.Action) :
    Except Stop (Option (Except ExtractionFailure SymbolTable)) := do
  match ← attempt (locate image) with
  | .error fault => return some (.error ⟨fault, .unstarted, SymbolTable.blank⟩)
  | .ok anchor =>
    match ← attempt (decode image anchor) with
    | .error fault => return some (.error ⟨fault, .anchorFound, SymbolTable.blank⟩)
    | .ok header =>
      let built ← build image header options cores schedule
      conclude options built

theorem stopAt_eq_ok (options : Options) (stop : InterruptedBuild) :
    stopAt options stop = .ok ⟨stop.fault, .readingFunctions, Extraction.kept options stop⟩ := by
  unfold stopAt Extraction.kept
  by_cases hpartial : options.allowPartial = true
  · rw [if_pos hpartial, if_pos hpartial, tableOf_eq_ok]
    rfl
  · rw [if_neg hpartial, if_neg hpartial]
    rfl

theorem extract_converges {image : Image} (hsize : image.size < 1 <<< 63) (options : Options)
    (cores : Nat) :
    Converges (extract image options cores) (Unstrip.extract image options cores).value := by
  have hword : image.size < wordLimit := Nat.lt_of_succ_lt (succ_lt_wordLimit hsize)
  cases hfind : Anchor.find image with
  | error fault =>
    rw [extract_of_find_error hfind]
    refine .of_eq fun schedule => ?_
    refine ComesTo.eq_ok (.bind_ok (locate_comesTo hword).attempt ?_)
    rw [hfind]
    rfl
  | ok anchor =>
    cases hdecode : Header.decode image anchor with
    | error fault =>
      rw [extract_of_decode_error hfind hdecode]
      refine .of_eq fun schedule => ?_
      refine ComesTo.eq_ok (.bind_ok (locate_comesTo hword).attempt ?_)
      rw [hfind]
      refine .bind_ok (decode_comesTo hword anchor).attempt ?_
      rw [hdecode]
      rfl
    | ok header =>
      have hextract : extract image options cores = fun schedule =>
          build image header options cores schedule >>= conclude options := by
        funext schedule
        rw [extract, (locate_comesTo hword).attempt, hfind]
        show (attempt (decode image anchor) >>= _) = _
        rw [(decode_comesTo hword anchor).attempt, hdecode]
        rfl
      rw [hextract, extract_of_decode_ok hfind hdecode]
      refine (build_converges hsize (Header.sound_of_decode hdecode) options cores).bind rfl ?_
      unfold Extraction.build
      cases (buildTable image header options cores).value with
      | ok table => rfl
      | error stop =>
        rw [conclude, stopAt_eq_ok]
        rfl

/-- The faults of an extraction. -/
theorem extract_failsOnlyWith (image : Image) (options : Options) (cores : Nat) :
    FailsOnlyWith (fun failure => failure.fault.OfSearch ∨ failure.fault.OfTable)
      (Unstrip.extract image options cores).value := by
  intro failure hfail
  cases hfind : Anchor.find image with
  | error fault =>
    rw [extract_of_find_error hfind] at hfail
    cases hfail
    exact .inl (Anchor.find_failsOnlyWith image fault hfind)
  | ok anchor =>
    cases hdecode : Header.decode image anchor with
    | error fault =>
      rw [extract_of_decode_error hfind hdecode] at hfail
      cases hfail
      exact .inr (Header.decode_failsOnlyWith image anchor fault hdecode)
    | ok header =>
      rw [extract_of_decode_ok hfind hdecode, Extraction.build] at hfail
      cases hbuild : (buildTable image header options cores).value with
      | ok table =>
        rw [hbuild] at hfail
        cases hfail
      | error stop =>
        rw [hbuild] at hfail
        cases hfail
        obtain ⟨hlt, -, hbad⟩ := buildTable_eq_error_iff.1 hbuild
        have hsound := Header.sound_of_decode hdecode
        exact .inr (hsound.symbolAt_failsOnlyWith options.nameCap hlt _ hbad)

/-- What is read behind a header does not trap, and apart from an index behind the last record only the
bytes of the image can make it fail. -/
structure SafeBehind (image : Image) (header : Header) (nameCap : Nat) : Prop where
  descriptorTable : descriptorTable image header = .ok (.ofHeader image header)
  nameTable : nameTable image header nameCap = .ok (.ofHeader image header nameCap)
  get (index : Nat) :
    ComesTo (get (.ofHeader image header) index) ((DescriptorTable.ofHeader image header).get index)
  metadata (descriptor : Descriptor) :
    ComesTo (metadata (.ofHeader image header nameCap) descriptor)
      ((NameTable.ofHeader image header nameCap).metadata descriptor)
  name (nameIndex : Nat) :
    ComesTo (name (.ofHeader image header nameCap) nameIndex)
      ((NameTable.ofHeader image header nameCap).name nameIndex)
  cursor (cursor : DescriptorTable.Cursor) : (DescriptorTable.ofHeader image header).Reaches cursor →
    next cursor = .ok cursor.step ∧ remaining cursor = .ok cursor.remaining
  getFault (index : Nat) : index < header.functionCount →
    FailsOnlyWith Fault.OfTable ((DescriptorTable.ofHeader image header).get index)
  getBehind (index : Nat) : header.functionCount ≤ index →
    (DescriptorTable.ofHeader image header).get index =
      .error (.corrupt (.noRecord index header.functionCount))
  metadataFault (descriptor : Descriptor) :
    FailsOnlyWith Fault.OfTable ((NameTable.ofHeader image header nameCap).metadata descriptor)
  nameFault (nameIndex : Nat) :
    FailsOnlyWith Fault.OfTable ((NameTable.ofHeader image header nameCap).name nameIndex)

theorem safeBehind_of_sound {image : Image} {header : Header} (hsize : image.size < 1 <<< 63)
    (h : header.Sound image.size) (nameCap : Nat) : SafeBehind image header nameCap where
  descriptorTable := descriptorTable_eq_ok h
  nameTable := nameTable_eq_ok h nameCap
  get := get_comesTo h.wordWidth
  metadata := metadata_comesTo h.wordWidth
  name := name_comesTo (show image.size + 1 < wordLimit from succ_lt_wordLimit hsize)
  cursor cursor hcursor := by
    refine ⟨next_eq_ok h.wordWidth ?_ hcursor, remaining_eq_ok hcursor⟩
    exact Nat.lt_of_le_of_lt (Nat.le_add_right _ _) (functionCount_lt hsize h)
  getFault _ := h.get_failsOnlyWith
  getBehind _ := Header.Sound.get_eq_noRecord
  metadataFault := h.metadata_failsOnlyWith nameCap
  nameFault _ := (NameTable.name_failsOnlyWith _ _).mono Fault.OfBytes.ofTable

/-- **No input makes an extraction trap.** In an image of less than 2^63 bytes every run of an extraction
comes to its outcome without a trap, whatever the options, the number of cores and the schedule. So does
the reading of a header at any position, and behind every header that is decoded the reading of any
descriptor, metadata record and name. All faults but those of the search are faults of the bytes. -/
theorem runs_without_trap (image : Image) (hsize : image.size < 1 <<< 63) :
    (∀ options cores,
      Converges (extract image options cores) (Unstrip.extract image options cores).value ∧
      FailsOnlyWith (fun failure => failure.fault.OfSearch ∨ failure.fault.OfTable)
        (Unstrip.extract image options cores).value) ∧
    ∀ anchor,
      ComesTo (decode image anchor) (Header.decode image anchor) ∧
      FailsOnlyWith Fault.OfTable (Header.decode image anchor) ∧
      ∀ header, Header.decode image anchor = .ok header →
        ∀ nameCap, SafeBehind image header nameCap := by
  refine ⟨fun options cores => ?_, fun anchor => ?_⟩
  · exact ⟨extract_converges hsize options cores, extract_failsOnlyWith image options cores⟩
  · have hword : image.size < wordLimit := Nat.lt_of_succ_lt (succ_lt_wordLimit hsize)
    refine ⟨decode_comesTo hword anchor, Header.decode_failsOnlyWith image anchor, ?_⟩
    intro header hdecode
    exact safeBehind_of_sound hsize (Header.sound_of_decode hdecode)

/-- Two workers that find the table of two functions, with only one chunk to share. -/
theorem runs_without_trap_two_functions :
    let options : Options := { workers := 2 }
    let header := Header.readAt twoFunctions 1 .go116 4
    twoFunctions.size < 1 <<< 63 ∧
    Header.decode twoFunctions ⟨1, .go116⟩ = .ok header ∧
    Converges (extract twoFunctions options 1)
      (.ok (SymbolTable.ofArray #[⟨"a", 4096, none⟩, ⟨"main", 4112, none⟩])) ∧
    SafeBehind twoFunctions header 4096 := by
  intro options header
  have hsize : twoFunctions.size < 1 <<< 63 := by decide
  have hdecode : Header.decode twoFunctions ⟨1, .go116⟩ = .ok header := rfl
  have hvalue : (Unstrip.extract twoFunctions options 1).value =
      .ok (SymbolTable.ofArray #[⟨"a", 4096, none⟩, ⟨"main", 4112, none⟩]) := by decide +kernel
  obtain ⟨hextract, hread⟩ := runs_without_trap twoFunctions hsize
  exact ⟨hsize, hdecode, hvalue ▸ (hextract options 1).1, (hread ⟨1, .go116⟩).2.2 header hdecode 4096⟩

end Unstrip.Machine
