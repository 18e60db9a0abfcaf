import Unstrip.Sink
import Unstrip.Symbol.Json
import Unstrip.Text.Hex

/-!
# Reports

A `Report` shows the outcome of an extraction, either as text with one line for each symbol or as
a JSON document. It is rendered as pieces, which are written to a sink one after the other.
-/

namespace Unstrip

inductive ReportFormat where
  | text
  | json
  deriving DecidableEq, Repr

structure Report where
  /-- The name of the file. -/
  source : String
  /-- The section that was scanned, unless it was the whole file. -/
  sectionName : Option String
  symbols : SymbolTable
  /-- Why the table is incomplete, if it is. -/
  failure : Option String := none
  deriving DecidableEq, Repr

/-- Why a report could not be written. -/
inductive WriteFailure where
  /-- The sink failed inside a JSON document. -/
  | document
  /-- The sink failed in text, or on the line break after a document. -/
  | stream
  deriving DecidableEq, Repr

namespace Report

def markPartial (report : Report) (failure : String) : Report :=
  { report with failure := some failure }

def isComplete (report : Report) : Bool := report.failure.isNone

/-- An address as it is shown: sixteen hexadecimal digits. -/
def showAddress (address : Nat) : String := "0x" ++ hexPadded 16 address

def linePieces (symbol : Symbol) : List String :=
  let note :=
    match symbol.metadataAddress with
    | some address => [" (metadata says " ++ showAddress address ++ ")"]
    | none => []
  (showAddress symbol.address ++ " " ++ symbol.name) :: note ++ ["\n"]

def textPieces (report : Report) : List String :=
  let note :=
    match report.failure with
    | some failure => ["# incomplete: " ++ failure ++ "\n"]
    | none => []
  report.symbols.toList.flatMap linePieces ++ note

def optionalMember (name : String) : Option String → List (String × Json)
  | some value => [(name, .quoted value)]
  | none => []

def toJson (report : Report) : Json :=
  .object
    ([("source", .quoted report.source)]
      ++ optionalMember "section" report.sectionName
      ++ [("complete", .boolean report.isComplete)]
      ++ optionalMember "error" report.failure
      ++ [("count", .numeral report.symbols.size), ("symbols", report.symbols.toJson)])

/-- The pieces of the report, each with what it means if it cannot be written. -/
def pieces (report : Report) : ReportFormat → List (WriteFailure × String)
  | .text => report.textPieces.map fun piece => (.stream, piece)
  | .json => (report.toJson.prettyPieces.map fun piece => (.document, piece)) ++ [(.stream, "\n")]

def render (report : Report) (format : ReportFormat) : String :=
  String.join ((report.pieces format).map (·.2))

def write (report : Report) (format : ReportFormat) (sink : Sink) : Sink × Option WriteFailure :=
  sink.writeAll (report.pieces format)

end Report

end Unstrip
