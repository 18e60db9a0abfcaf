import Unstrip.Proofs.Outcome

/-!
# Sinks that fill up

A report is written in many small pieces, and a sink may fill up in the middle of any of them. A piece is
offered until all of it has been taken (`Sink.offerAll`), and a sink that is nearly full takes a part of what
it is offered, so a failure leaves a part of a piece behind.

What counts is not how the bytes are cut into pieces but what it means if a byte is not taken
(`Sink.labelled`): the bytes that fit are taken, and the first one that does not fit says what has failed
(`offerEach_limited`). In a report as text all bytes mean the same; in a document the line break at the end
differs from all others. Main statement: `write_leaves_prefix`.
-/

namespace Unstrip

def bytesOf (text : String) : List UInt8 := text.toUTF8.data.toList

@[simp] theorem bytesOf_append (text more : String) : bytesOf (text ++ more) = bytesOf text ++ bytesOf more := by
  simp [bytesOf, String.toUTF8, String.toByteArray_append]

theorem bytesOf_join (texts : List String) : bytesOf (String.join texts) = texts.flatMap bytesOf := by
  induction texts with
  | nil => rfl
  | cons text texts ih => rw [String.join_cons, bytesOf_append, ih, List.flatMap_cons]

@[simp] theorem length_bytesOf (text : String) : (bytesOf text).length = text.toUTF8.data.size :=
  Array.length_toList

namespace Sink

variable {ε : Type}

/-! ## Offering bytes -/

/-- One call that offers bytes to a sink: how many it takes, and the sink afterwards. It takes as many as it
has room for, and refuses if it has no room left. -/
def offer? (sink : Sink) (bytes : List UInt8) : Option (Nat × Sink) :=
  match sink.room with
  | none => some (bytes.length, ⟨none, sink.taken ++ bytes.toArray⟩)
  | some 0 => none
  | some (room + 1) =>
    let count := min (room + 1) bytes.length
    some (count, ⟨some (room + 1 - count), sink.taken ++ (bytes.take count).toArray⟩)

/-- Offers bytes until all of them are taken. This fails if the sink refuses, or takes none. -/
def offerAll (sink : Sink) : List UInt8 → Sink × Bool
  | [] => (sink, true)
  | b :: bytes =>
    match sink.offer? (b :: bytes) with
    | none => (sink, false)
    | some (0, sink) => (sink, false)
    | some (count + 1, sink) => offerAll sink (bytes.drop count)
termination_by bytes => bytes.length
decreasing_by
  simp only [List.length_drop, List.length_cons]
  omega

/-- Offers runs of bytes one after the other. Each comes with the failure that it means if it is not taken
in full; the first such failure ends the writing. -/
def offerEach (sink : Sink) : List (ε × List UInt8) → Sink × Option ε
  | [] => (sink, none)
  | (failure, bytes) :: runs =>
    match sink.offerAll bytes with
    | (sink, true) => offerEach sink runs
    | (sink, false) => (sink, some failure)

theorem write_limited (room : Nat) (taken bytes : Array UInt8) :
    (⟨some room, taken⟩ : Sink).write bytes =
      (⟨some (room - bytes.size), taken ++ bytes.extract 0 room⟩, decide (bytes.size ≤ room)) := by
  unfold write
  by_cases h : bytes.size ≤ room
  · simp [h, Array.extract_eq_self_of_le h]
  · have hroom : room - bytes.size = 0 := by omega
    simp [h, hroom]

/-- A sink with room is offered bytes once, and a second time if it has not taken all of them. -/
theorem offerAll_eq_write (sink : Sink) (bytes : List UInt8) :
    sink.offerAll bytes = sink.write bytes.toArray := by
  obtain ⟨room, taken⟩ := sink
  cases bytes with
  | nil => cases room <;> simp [offerAll, write]
  | cons b bytes =>
    cases room with
    | none => simp [offerAll, offer?, write]
    | some room =>
      rw [write_limited]
      cases room with
      | zero => simp [offerAll, offer?]
      | succ room =>
        by_cases h : bytes.length ≤ room
        · have hcount : min (room + 1) (bytes.length + 1) = bytes.length + 1 := by omega
          simp only [offerAll, offer?, List.length_cons, hcount]
          simp [offerAll, h, List.take_of_length_le h]
        · have hcount : min (room + 1) (bytes.length + 1) = room + 1 := by omega
          obtain ⟨c, rest, hrest⟩ := List.exists_cons_of_length_pos (l := bytes.drop room) (by simp; omega)
          simp only [offerAll, offer?, List.length_cons, hcount]
          simp [offerAll, offer?, h, hrest]
          omega

/-! ## What becomes of each byte -/

/-- The bytes of all runs in order, each with what it means if it is not taken. -/
def labelled (runs : List (ε × List UInt8)) : List (ε × UInt8) :=
  runs.flatMap fun run => run.2.map (run.1, ·)

@[simp] theorem labelled_cons (failure : ε) (bytes : List UInt8) (runs : List (ε × List UInt8)) :
    labelled ((failure, bytes) :: runs) = bytes.map (failure, ·) ++ labelled runs := rfl

/-- A sink without a limit takes everything. -/
theorem offerEach_unlimited (taken : Array UInt8) (runs : List (ε × List UInt8)) :
    (⟨none, taken⟩ : Sink).offerEach runs =
      (⟨none, taken ++ ((labelled runs).map (·.2)).toArray⟩, none) := by
  induction runs generalizing taken with
  | nil => simp [offerEach, labelled]
  | cons run runs ih =>
    obtain ⟨failure, bytes⟩ := run
    rw [offerEach, offerAll_eq_write]
    simp [write, ih, Function.comp_def]

/-- A sink with a limit takes the bytes that fit, and the first that does not fit tells what has failed. -/
theorem offerEach_limited (room : Nat) (taken : Array UInt8) (runs : List (ε × List UInt8)) :
    (⟨some room, taken⟩ : Sink).offerEach runs =
      (⟨some (room - (labelled runs).length),
        taken ++ (((labelled runs).take room).map (·.2)).toArray⟩,
        ((labelled runs)[room]?).map (·.1)) := by
  induction runs generalizing room taken with
  | nil => simp [offerEach, labelled]
  | cons run runs ih =>
    obtain ⟨failure, bytes⟩ := run
    rw [offerEach, offerAll_eq_write, write_limited, labelled_cons]
    generalize hlabels : bytes.map (failure, ·) = labels
    have hlength : labels.length = bytes.length := by rw [← hlabels, List.length_map]
    have hbytes : labels.map (·.2) = bytes := by simp [← hlabels, Function.comp_def]
    by_cases h : bytes.length ≤ room
    · -- The run fits, and the others have the room that it leaves.
      have hget : (labels ++ labelled runs)[room]? = (labelled runs)[room - bytes.length]? := by
        rw [List.getElem?_append_right (by omega), hlength]
      have htake : (labels ++ labelled runs).take room =
          labels ++ (labelled runs).take (room - bytes.length) := by
        rw [List.take_append, List.take_of_length_le (by omega), hlength]
      simp only [List.size_toArray, h, decide_true, ih, hget, htake]
      simp [hbytes, hlength, Nat.sub_sub, List.take_of_length_le h]
    · have hget : ((labels ++ labelled runs)[room]?).map (·.1) = some failure := by
        rw [List.getElem?_append_left (by omega), ← hlabels]
        simp [List.getElem?_eq_getElem (Nat.not_le.1 h)]
      have htake : (labels ++ labelled runs).take room = labels.take room :=
        List.take_append_of_le_length (by omega)
      have hfull : room - (labels ++ labelled runs).length = 0 := by
        rw [List.length_append]
        omega
      have hfull' : room - bytes.length = 0 := by omega
      simp only [List.size_toArray, h, decide_false, hget, htake, hfull, hfull']
      simp [List.map_take, hbytes]

/-- How the bytes are cut into runs makes no difference. -/
theorem offerEach_congr {runs runs' : List (ε × List UInt8)} (h : labelled runs = labelled runs')
    (sink : Sink) : sink.offerEach runs = sink.offerEach runs' := by
  obtain ⟨room, taken⟩ := sink
  cases room with
  | none => rw [offerEach_unlimited, offerEach_unlimited, h]
  | some room => rw [offerEach_limited, offerEach_limited, h]

def runsOf (pieces : List (ε × String)) : List (ε × List UInt8) :=
  pieces.map fun piece => (piece.1, bytesOf piece.2)

/-- To write pieces is to offer each of them until it is taken. -/
theorem writeAll_eq_offerEach (sink : Sink) (pieces : List (ε × String)) :
    sink.writeAll pieces = sink.offerEach (runsOf pieces) := by
  induction pieces generalizing sink with
  | nil => rfl
  | cons piece pieces ih =>
    obtain ⟨failure, piece⟩ := piece
    have hwrite : sink.write piece.toUTF8.data = sink.offerAll (bytesOf piece) := by
      rw [offerAll_eq_write, bytesOf]
    rw [writeAll, hwrite, runsOf, List.map_cons, offerEach]
    obtain ⟨sink', taken⟩ := sink.offerAll (bytesOf piece)
    cases taken with
    | false => rfl
    | true => exact ih sink'

@[simp] theorem labelled_append (runs more : List (ε × List UInt8)) :
    labelled (runs ++ more) = labelled runs ++ labelled more := List.flatMap_append

theorem labelled_of_forall {failure : ε} {runs : List (ε × List UInt8)}
    (h : ∀ run ∈ runs, run.1 = failure) : labelled runs = (runs.flatMap (·.2)).map (failure, ·) := by
  rw [labelled, List.map_flatMap]
  exact List.flatMap_congr fun run hrun => by rw [h run hrun]

end Sink

/-! ## Reports -/

namespace Report

open Sink

variable (report : Report)

/-- The object of a report as it is written, without the line break behind it. -/
def document : String := String.join report.toJson.prettyPieces

/-- The runs of bytes make up the report. As text, all of them stand in the stream. As a document, those of
the object come first, and the line break behind it stands in the stream. -/
def MadeOf (runs : List (WriteFailure × List UInt8)) : ReportFormat → Prop
  | .text => (∀ run ∈ runs, run.1 = .stream) ∧ runs.flatMap (·.2) = bytesOf (report.render .text)
  | .json => ∃ inside behind, runs = inside ++ behind ∧
    (∀ run ∈ inside, run.1 = .document) ∧ inside.flatMap (·.2) = bytesOf report.document ∧
    (∀ run ∈ behind, run.1 = .stream) ∧ behind.flatMap (·.2) = bytesOf "\n"

/-- The bytes of a report in order, each with what it means if it is not taken. -/
def labels : ReportFormat → List (WriteFailure × UInt8)
  | .text => (bytesOf (report.render .text)).map (.stream, ·)
  | .json => (bytesOf report.document).map (.document, ·) ++ [(.stream, 10)]

variable {report} {format : ReportFormat}

theorem labelled_of_madeOf {runs : List (WriteFailure × List UInt8)} (h : report.MadeOf runs format) :
    labelled runs = report.labels format := by
  cases format with
  | text => rw [labelled_of_forall h.1, h.2, labels]
  | json =>
    obtain ⟨inside, behind, rfl, hinside, hobject, hbehind, hbreak⟩ := h
    rw [labelled_append, labelled_of_forall hinside, labelled_of_forall hbehind, hobject, hbreak]
    rfl

theorem flatMap_runsOf_map (failure : WriteFailure) (texts : List String) :
    (runsOf (texts.map (failure, ·))).flatMap (·.2) = bytesOf (String.join texts) := by
  simp [runsOf, bytesOf_join, List.flatMap_map]

/-- The pieces of a report make it up. -/
theorem madeOf_pieces (report : Report) (format : ReportFormat) :
    report.MadeOf (runsOf (report.pieces format)) format := by
  cases format with
  | text =>
    refine ⟨?_, ?_⟩
    · simp [pieces, runsOf]
    · rw [pieces, flatMap_runsOf_map, render_text]
  | json =>
    refine ⟨runsOf (report.toJson.prettyPieces.map (.document, ·)), runsOf [(.stream, "\n")],
      ?_, ?_, ?_, ?_, ?_⟩
    · rw [pieces, runsOf, List.map_append]
      rfl
    · simp [runsOf]
    · exact flatMap_runsOf_map _ _
    · simp [runsOf]
    · exact flatMap_runsOf_map .stream ["\n"]

/-- However a report is cut into runs, offering them comes to the same as writing it. -/
theorem offerEach_of_madeOf {runs : List (WriteFailure × List UInt8)} (h : report.MadeOf runs format)
    (sink : Sink) : sink.offerEach runs = report.write format sink := by
  have hlabels : labelled runs = labelled (runsOf (report.pieces format)) := by
    rw [labelled_of_madeOf h, labelled_of_madeOf (madeOf_pieces report format)]
  rw [write, writeAll_eq_offerEach]
  exact offerEach_congr hlabels sink

theorem map_snd_labels (report : Report) (format : ReportFormat) :
    (report.labels format).map (·.2) = bytesOf (report.render format) := by
  cases format with
  | text => simp [labels, Function.comp_def]
  | json =>
    rw [render_json, bytesOf_append]
    simp [labels, Function.comp_def, document]
    rfl

@[simp] theorem length_labels (report : Report) (format : ReportFormat) :
    (report.labels format).length = (report.render format).toUTF8.data.size := by
  rw [← length_bytesOf, ← map_snd_labels, List.length_map]

/-- A sink without a limit takes the whole report. -/
theorem write_empty_none (report : Report) (format : ReportFormat) :
    report.write format (.empty none) = (⟨none, (report.render format).toUTF8.data⟩, none) := by
  rw [write, writeAll_eq_offerEach, Sink.empty, offerEach_unlimited,
    labelled_of_madeOf (madeOf_pieces report format), map_snd_labels]
  simp [bytesOf]

/-- A sink with a limit takes the bytes that fit, and the first that does not fit tells what has failed. -/
theorem write_empty_some (report : Report) (format : ReportFormat) (limit : Nat) :
    report.write format (.empty (some limit)) =
      (⟨some (limit - (report.render format).toUTF8.data.size),
        (report.render format).toUTF8.data.extract 0 limit⟩,
        ((report.labels format)[limit]?).map (·.1)) := by
  have htake : ((bytesOf (report.render format)).take limit).toArray =
      (report.render format).toUTF8.data.extract 0 limit :=
    Array.toList_inj.1 (by simp [bytesOf, Array.toList_extract, List.extract_eq_take_drop])
  rw [write, writeAll_eq_offerEach, Sink.empty, offerEach_limited,
    labelled_of_madeOf (madeOf_pieces report format), length_labels, List.map_take, map_snd_labels, htake,
    Array.empty_append]

theorem size_render_json (report : Report) :
    (report.render .json).toUTF8.data.size = (bytesOf report.document).length + 1 := by
  rw [← length_labels, labels, List.length_append, List.length_map, List.length_singleton]

theorem failure_text {i : Nat} (h : i < (report.render .text).toUTF8.data.size) :
    ((report.labels .text)[i]?).map (·.1) = some .stream := by
  rw [← length_bytesOf] at h
  simp [labels, List.getElem?_eq_getElem h]

theorem failure_inside {i : Nat} (h : i < (report.render .json).toUTF8.data.size - 1) :
    ((report.labels .json)[i]?).map (·.1) = some .document := by
  rw [size_render_json, Nat.add_sub_cancel] at h
  rw [labels, List.getElem?_append_left (by simpa using h)]
  simp [List.getElem?_eq_getElem h]

theorem failure_behind :
    ((report.labels .json)[(report.render .json).toUTF8.data.size - 1]?).map (·.1) = some .stream := by
  rw [size_render_json, Nat.add_sub_cancel, labels, List.getElem?_append_right (by simp)]
  simp

/-- **A sink that fills up leaves a part of the report, and the failure is told.** Writing succeeds exactly if
the sink has room for the whole report, and then the sink holds it; otherwise the sink holds as many of its
first bytes as there is room for. What has failed is the stream for a report as text, and for a document
unless only the line break at its end is missing. It makes no difference how the report is cut into runs of
bytes, and that the sink takes a part of a run. -/
theorem write_leaves_prefix (report : Report) (format : ReportFormat) (limit : Nat) :
    let whole := (report.render format).toUTF8.data
    let outcome := report.write format (.empty (some limit))
    report.write format (.empty none) = (⟨none, whole⟩, none) ∧
    (outcome.2 = none ↔ whole.size ≤ limit) ∧
    (whole.size ≤ limit → outcome.1.taken = whole) ∧
    outcome.1.taken = whole.extract 0 limit ∧
    (format = .text → limit < whole.size → outcome.2 = some .stream) ∧
    (format = .json → limit < whole.size - 1 → outcome.2 = some .document) ∧
    (format = .json → limit = whole.size - 1 → outcome.2 = some .stream) ∧
    (∀ runs room, report.MadeOf runs format →
      (Sink.empty room).offerEach runs = report.write format (.empty room)) := by
  intro whole outcome
  have houtcome : outcome = _ := write_empty_some report format limit
  have htaken : outcome.1.taken = whole.extract 0 limit := by rw [houtcome]
  have hfailure : outcome.2 = ((report.labels format)[limit]?).map (·.1) := by rw [houtcome]
  refine ⟨write_empty_none report format, ?_, ?_, htaken, ?_, ?_, ?_, fun runs room h => offerEach_of_madeOf h _⟩
  · rw [hfailure, Option.map_eq_none_iff, List.getElem?_eq_none_iff, length_labels]
  · intro hroom
    rw [htaken, Array.extract_eq_self_of_le hroom]
  · rintro rfl hfull
    rw [hfailure, failure_text hfull]
  · rintro rfl hfull
    rw [hfailure, failure_inside hfull]
  · rintro rfl hfull
    rw [hfailure, hfull, failure_behind]

/-- The text of one symbol ends in the middle of its name, between the two bytes of a character. Its document
ends inside the object, in front of its line break, and not at all. -/
theorem write_leaves_prefix_one_symbol :
    let report : Report := ⟨"a", none, SymbolTable.ofList [⟨"é", 1, none⟩], some "cut"⟩
    let text := (report.render .text).toUTF8.data
    let json := (report.render .json).toUTF8.data
    20 < text.size ∧ (report.write .text (.empty (some 20))).2 = some .stream ∧
    (report.write .text (.empty (some 20))).1.taken = text.extract 0 20 ∧
    json.size = 144 ∧ (report.write .json (.empty (some 0))).2 = some .document ∧
    (report.write .json (.empty (some 143))).2 = some .stream ∧
    (report.write .json (.empty (some 143))).1.taken = json.extract 0 143 ∧
    (report.write .json (.empty (some 144))).2 = none ∧
    (report.write .json (.empty (some 144))).1.taken = json ∧
    report.MadeOf [(.stream, bytesOf (report.render .text))] .text ∧
    (Sink.empty (some 20)).offerEach [(.stream, bytesOf (report.render .text))] =
      report.write .text (.empty (some 20)) := by
  intro report text json
  have htext : 20 < text.size := by decide +kernel
  have hjson : json.size = 144 := by decide +kernel
  have hmade : report.MadeOf [(.stream, bytesOf (report.render .text))] .text := by simp [MadeOf]
  obtain ⟨-, -, -, hpart, hstream, -, -, hruns⟩ := write_leaves_prefix report .text 20
  obtain ⟨-, -, -, -, -, hinside, -, -⟩ := write_leaves_prefix report .json 0
  obtain ⟨-, -, -, hbroken, -, -, hbehind, -⟩ := write_leaves_prefix report .json 143
  obtain ⟨-, hdone, hfull, -⟩ := write_leaves_prefix report .json 144
  refine ⟨htext, hstream rfl htext, hpart, hjson, hinside rfl ?_, hbehind rfl ?_, hbroken, hdone.2 ?_,
    hfull ?_, hmade, hruns _ _ hmade⟩
  · show 0 < json.size - 1
    omega
  · show 143 = json.size - 1
    omega
  · show json.size ≤ 144
    omega
  · show json.size ≤ 144
    omega

end Report

end Unstrip
