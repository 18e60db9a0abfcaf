import Unstrip.Build

/-!
# Extraction

`extract` recovers the functions of the table in an image: it finds the anchor, decodes the
header, and builds the symbol table. A failure names the stage that had been reached, and keeps
the symbols before the first bad record if the caller asks for them.
-/

namespace Unstrip

/-- An extraction that did not recover a whole table. -/
structure ExtractionFailure where
  fault : Fault
  /-- The last stage that was reached. -/
  stage : Stage
  /-- The symbols that were kept. -/
  kept : SymbolTable
  deriving DecidableEq, Repr

def ExtractionFailure.message (failure : ExtractionFailure) : String :=
  let stage := failure.stage.title
  let reason := failure.fault.message
  s!"Symbol extraction failed after stage '{stage}': {reason}"

namespace Extraction

/-- What is told about a search for the table. -/
def searchEvents : Except Fault Anchor → List Event
  | .ok anchor => [.signatureFound anchor]
  | .error (.unsupported magic) => [.foreignHeader magic]
  | .error _ => []

/-- What is told about the reading of a header. -/
def headerEvents : Except Fault Header → List Event
  | .ok header => [.headerDecoded header]
  | .error _ => []

@[simp] theorem searchEvents_ok (anchor : Anchor) : searchEvents (.ok anchor) = [.signatureFound anchor] :=
  rfl

@[simp] theorem headerEvents_ok (header : Header) : headerEvents (.ok header) = [.headerDecoded header] :=
  rfl

def advance (stage : Stage) : Logged Stage :=
  match stage.next? with
  | some next => do
    Logged.tell (.stageReached stage next)
    return next
  | none => return stage

/-- The outcome for a table of which a record is bad. -/
def stopAt (stage : Stage) (stop : InterruptedBuild) (count : Nat) (options : Options) :
    Logged ExtractionFailure := do
  if options.allowPartial then
    Logged.tell (.partKept stop.symbols.size count stop.fault)
    return ⟨stop.fault, stage, SymbolTable.ofArray stop.symbols⟩
  else
    return ⟨stop.fault, stage, SymbolTable.blank⟩

end Extraction

open Extraction in
/-- Recovers the functions of the table in an image, on a machine with the given number of
cores. -/
def extract (image : Image) (options : Options) (cores : Nat) :
    Logged (Except ExtractionFailure SymbolTable) := do
  let stage := Stage.unstarted
  let located := Anchor.find image
  match ← Logged.mk located (searchEvents located) with
  | .error fault => return .error ⟨fault, stage, SymbolTable.blank⟩
  | .ok anchor =>
    let stage ← advance stage
    let decoded := Header.decode image anchor
    match ← Logged.mk decoded (headerEvents decoded) with
    | .error fault => return .error ⟨fault, stage, SymbolTable.blank⟩
    | .ok header =>
      let stage ← advance stage
      let stage ← advance stage
      match ← buildTable image header options cores with
      | .error stop => return .error (← stopAt stage stop header.functionCount options)
      | .ok table =>
        let _ ← advance stage
        Logged.tell (.recovered table.size header.release)
        return .ok table

end Unstrip
