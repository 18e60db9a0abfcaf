import Unstrip.Arguments
import Unstrip.Directory
import Unstrip.Extraction
import Unstrip.Region

/-!
# The program

The program loads a file, chooses the region to scan, extracts the symbols, and writes a report to
standard output or to a file. If a section was chosen without being asked for and no table begins
in it, the whole file is scanned instead. Its exit code says whether the table is complete (0) or a
part that is kept on request (3), whether something failed (1), or whether the arguments are of no
use (2).

All of this is decided here, given the contents of the working directory: `respond` is everything
up to the point where the output file is opened, and `run` goes on to the end.
-/

namespace Unstrip.Program

/-- Why there is nothing to scan. -/
inductive LoadFault where
  /-- The file cannot be read. -/
  | unreadable (fault : OpenFault)
  /-- No region of the file can be chosen. -/
  | noRegion (fault : RegionFault)
  deriving DecidableEq, Repr

def LoadFault.message (path : String) : LoadFault → String
  | .unreadable fault => s!"Failed to read {path}: {fault.message}"
  | .noRegion fault => fault.message path

/-- Chooses the region of a file that has been opened, or not. -/
def load (opened : Except OpenFault Image) (requested? : Option String) :
    Except LoadFault (Image × Region) :=
  match opened with
  | .error fault => .error (.unreadable fault)
  | .ok file =>
    match Region.ofFile file requested? with
    | .ok region => .ok (file, region)
    | .error fault => .error (.noRegion fault)

/-- Why the program ends without a report. -/
inductive Failure where
  /-- There is nothing to scan. -/
  | loading (fault : LoadFault)
  /-- The symbols cannot be recovered. -/
  | extraction (failure : ExtractionFailure)
  /-- The output file cannot be opened. -/
  | output (path : String) (fault : OpenFault)
  deriving DecidableEq, Repr

def Failure.message (source : String) : Failure → String
  | .loading fault => fault.message source
  | .extraction failure => s!"Failed to recover symbols from {source}: {failure.message}"
  | .output path fault => s!"Failed to create {path}: {fault.message}"

/-- The extraction that counts, and the region that it is about. -/
def recover (arguments : Arguments) (file : Image) (region : Region) (cores : Nat) :
    Region × Except ExtractionFailure SymbolTable :=
  let first := (extract (region.bytes file) arguments.options cores).value
  let isChosen := arguments.sectionName.isNone ∧ region.sectionName.isSome
  match first with
  | .error ⟨.notFound, _, _⟩ =>
    if isChosen then (Region.whole file, (extract file arguments.options cores).value)
    else (region, first)
  | _ => (region, first)

/-- The report of an extraction, unless it has failed for good. -/
def reportOf (arguments : Arguments) (region : Region) :
    Except ExtractionFailure SymbolTable → Except ExtractionFailure Report
  | .ok table => .ok ⟨arguments.input, region.sectionName, table, none⟩
  | .error failure =>
    if arguments.allowPartial ∧ failure.stage = .readingFunctions then
      .ok ⟨arguments.input, region.sectionName, failure.kept, some failure.fault.message⟩
    else .error failure

/-- Everything up to the report. -/
def respond (arguments : Arguments) (opened : Except OpenFault Image) (cores : Nat) :
    Except Failure Report :=
  match load opened arguments.sectionName with
  | .error fault => .error (.loading fault)
  | .ok (file, region) =>
    let (region, result) := recover arguments file region cores
    match reportOf arguments region result with
    | .ok report => .ok report
    | .error failure => .error (.extraction failure)

def title : String := "gosym v0.1.0"

def notes (report : Report) : List String :=
  let mismatches := report.symbols.inconsistent.length
  let warning :=
    if mismatches = 0 then []
    else [s!"warning: {mismatches} symbols have inconsistent metadata addresses"]
  let region := report.sectionName.getD "whole file"
  [title, s!"input: {report.source}", s!"region: {region}", s!"symbols: {report.symbols.size}"]
    ++ warning

def unlines (lines : List String) : String := String.join (lines.map (· ++ "\n"))

@[simp] theorem unlines_nil : unlines [] = "" := rfl

@[simp] theorem unlines_cons (line : String) (lines : List String) :
    unlines (line :: lines) = line ++ "\n" ++ unlines lines := by
  simp [unlines, String.join_cons]

@[simp] theorem unlines_append (lines more : List String) :
    unlines (lines ++ more) = unlines lines ++ unlines more := by
  simp [unlines, String.join_append]

def notesUnlessQuiet (arguments : Arguments) (lines : List String) : String :=
  if arguments.quiet then "" else unlines lines

section
variable {arguments : Arguments} (lines : List String)

@[simp] theorem notesUnlessQuiet_of_quiet (h : arguments.quiet = true) :
    notesUnlessQuiet arguments lines = "" := if_pos h

@[simp] theorem notesUnlessQuiet_of_not_quiet (h : arguments.quiet = false) :
    notesUnlessQuiet arguments lines = unlines lines := by
  rw [notesUnlessQuiet, if_neg (by simp [h])]

end

/-- The exit codes of runs with proper arguments. -/
inductive Exit where
  | success
  | failure
  | partialTable
  deriving DecidableEq, Repr

def Exit.code : Exit → Nat
  | .success => 0
  | .failure => 1
  | .partialTable => 3

def exitOf (report : Report) : Exit := if report.isComplete then .success else .partialTable

structure Outcome where
  exit : Exit
  stdout : String
  stderr : String
  /-- The working directory afterwards. -/
  directory : Directory
  deriving DecidableEq, Repr

def errorLine (arguments : Arguments) (failure : Failure) : String :=
  unlines ["error: " ++ failure.message arguments.input]

/-- Delivers a report to standard output, or to the output file. -/
def deliver (arguments : Arguments) (report : Report) (directory : Directory) : Outcome :=
  let text := report.render arguments.format
  let before := notesUnlessQuiet arguments (notes report)
  match arguments.output with
  | none => ⟨exitOf report, text, before, directory⟩
  | some path =>
    match directory.write path text.toUTF8.data with
    | .ok directory =>
      ⟨exitOf report, "", before ++ notesUnlessQuiet arguments [s!"output: {path}"], directory⟩
    | .error fault =>
      ⟨.failure, "", before ++ errorLine arguments (.output path fault), directory⟩

/-- A run with proper arguments in a working directory. -/
def run (arguments : Arguments) (directory : Directory) (cores : Nat) : Outcome :=
  match respond arguments (directory.read arguments.input) cores with
  | .ok report => deliver arguments report directory
  | .error failure => ⟨.failure, "", errorLine arguments failure, directory⟩

def misuseCode (misuse : Arguments.Misuse) : Nat :=
  if misuse = .helpWanted then 0 else 2

end Unstrip.Program
