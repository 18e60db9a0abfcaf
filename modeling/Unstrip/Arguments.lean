import Unstrip.Options
import Unstrip.Report

/-!
# Command-line arguments

The program takes one file and some options. An option is given by its long name or by a short
letter; a value may be attached to it (`--jobs=4`, `-j4`, `-j=4`) or follow as the next argument;
several letters may share one dash. After `--` everything is a file.

An option or file is checked only when the next one begins, or at the end: its value may be
missing, it may have been given before, and its value may not be acceptable. What cannot be an
option at all is refused on sight.
-/

namespace Unstrip

structure Arguments where
  input : String
  sectionName : Option String := none
  nameCap : Nat := 4096
  allowPartial : Bool := false
  jobs : Nat := 1
  format : ReportFormat := .text
  output : Option String := none
  quiet : Bool := false
  deriving DecidableEq, Repr

namespace Arguments

def options (arguments : Arguments) : Options where
  nameCap := arguments.nameCap
  allowPartial := arguments.allowPartial
  workers := arguments.jobs

/-- Why arguments are refused. -/
inductive Misuse where
  | missingFile
  /-- A value is missing, empty, or not one of those allowed. -/
  | invalidValue
  /-- A value is not a number that fits in 64 bits. -/
  | badNumber
  | unknownArgument
  /-- Something is given twice. -/
  | conflict
  /-- A value is given to an option that takes none. -/
  | surplusValue
  /-- Help is asked for instead of a run. -/
  | helpWanted
  deriving DecidableEq, Repr

inductive Parameter where
  | file
  | sectionName
  | nameCap
  | allowPartial
  | jobs
  | format
  | output
  | quiet
  | help
  deriving DecidableEq, Repr

namespace Parameter

def ofLong? (name : String) : Option Parameter :=
  match name with
  | "section" => some sectionName
  | "max-name-length" => some nameCap
  | "allow-partial" => some allowPartial
  | "jobs" => some jobs
  | "format" => some format
  | "output" => some output
  | "quiet" => some quiet
  | "help" => some help
  | _ => none

def ofLetter? (letter : Char) : Option Parameter :=
  match letter with
  | 's' => some sectionName
  | 'j' => some jobs
  | 'f' => some format
  | 'o' => some output
  | 'q' => some quiet
  | 'h' => some help
  | _ => none

def takesValue : Parameter → Bool
  | file | sectionName | nameCap | jobs | format | output => true
  | allowPartial | quiet | help => false

end Parameter

structure Reading where
  /-- The parameters that have been checked, with their values. -/
  given : List (Parameter × String) := []
  /-- The parameter that is checked next, and its value, if there is one yet. -/
  pending : Option (Parameter × Option String) := none
  /-- Whether the next argument may be the value of the pending option. -/
  wantsValue : Bool := false
  /-- Whether a file has been read. -/
  hasFile : Bool := false
  /-- Whether everything that follows is a file. -/
  onlyFiles : Bool := false

/-- The number that decimal digits spell, after an optional plus sign. -/
def number? (text : String) : Option Nat :=
  let digits :=
    match text.toList with
    | '+' :: rest => rest
    | rest => rest
  if digits.isEmpty ∨ ! digits.all Char.isDigit then none
  else
    let n := digits.foldl (fun n d => n * 10 + (d.toNat - '0'.toNat)) 0
    if n < 1 <<< 64 then some n else none

def format? (text : String) : Option ReportFormat :=
  match text with
  | "text" => some .text
  | "json" => some .json
  | _ => none

def checkValue (parameter : Parameter) (value : String) : Except Misuse Unit :=
  match parameter with
  | .file | .output => if value.isEmpty then .error .invalidValue else .ok ()
  | .nameCap | .jobs => if (number? value).isSome then .ok () else .error .badNumber
  | .format => if (format? value).isSome then .ok () else .error .invalidValue
  | .sectionName | .allowPartial | .quiet => .ok ()
  | .help => .error .helpWanted

namespace Reading

/-- Checks a parameter, and takes it over. -/
def accept (reading : Reading) (parameter : Parameter) (value? : Option String) :
    Except Misuse Reading := do
  if parameter.takesValue ∧ value?.isNone then throw .invalidValue
  if reading.given.any (·.1 = parameter) then throw .conflict
  let value := value?.getD ""
  checkValue parameter value
  return { reading with given := reading.given ++ [(parameter, value)] }

/-- Checks the pending parameter. -/
def settle (reading : Reading) : Except Misuse Reading :=
  match reading.pending with
  | none => .ok reading
  | some (parameter, value?) =>
    { reading with pending := none, wantsValue := false }.accept parameter value?

/-- Begins an option whose value follows, if there is any. -/
def begin (reading : Reading) (parameter : Parameter) : Except Misuse Reading := do
  let reading ← reading.settle
  return { reading with pending := some (parameter, none), wantsValue := true }

/-- Reads an option that is complete. -/
def complete (reading : Reading) (parameter : Parameter) (value? : Option String) :
    Except Misuse Reading := do
  let reading ← reading.settle
  reading.accept parameter value?

/-- Reads a word that is no option: the value of the pending option, or the file. -/
def word (reading : Reading) (text : String) : Except Misuse Reading :=
  match reading.pending with
  | some (parameter, none) =>
    if reading.wantsValue ∧ ! reading.onlyFiles then
      .ok { reading with pending := some (parameter, some text), wantsValue := false }
    else file
  | _ => file
where
  /-- Reads a file. -/
  file : Except Misuse Reading := do
    if reading.hasFile then throw .unknownArgument
    let reading ← reading.settle
    return { reading with pending := some (.file, some text), hasFile := true }

/-- Reads a long option, given without its dashes. -/
def long (reading : Reading) (text : List Char) : Except Misuse Reading := do
  let name := text.takeWhile (· ≠ '=')
  let value? :=
    match text.dropWhile (· ≠ '=') with
    | _ :: value => some (String.ofList value)
    | [] => none
  match Parameter.ofLong? (String.ofList name) with
  | none => throw .unknownArgument
  | some parameter =>
    match parameter.takesValue, value? with
    | true, some value => reading.complete parameter (some value)
    | true, none => reading.begin parameter
    | false, some _ => throw .surplusValue
    | false, none => reading.complete parameter none

/-- Reads letters that share one dash. -/
def letters (reading : Reading) : List Char → Except Misuse Reading
  | [] => .ok reading
  | letter :: rest =>
    match Parameter.ofLetter? letter with
    | none => .error .unknownArgument
    | some parameter =>
      if parameter.takesValue then
        match rest with
        | [] => reading.begin parameter
        | '=' :: value => reading.complete parameter (some (String.ofList value))
        | value => reading.complete parameter (some (String.ofList value))
      else do
        let reading ← reading.complete parameter none
        letters reading rest

def read (reading : Reading) (argument : String) : Except Misuse Reading :=
  if reading.onlyFiles then reading.word argument
  else
    match argument.toList with
    | ['-', '-'] => .ok { reading with onlyFiles := true }
    | '-' :: '-' :: text => reading.long text
    | '-' :: letter :: rest => reading.letters (letter :: rest)
    | _ => reading.word argument

def value? (reading : Reading) (parameter : Parameter) : Option String :=
  (reading.given.find? (·.1 = parameter)).map (·.2)

def finish (reading : Reading) : Except Misuse Arguments := do
  let reading ← reading.settle
  let defaults : Arguments := { input := "" }
  match reading.value? .file with
  | none => throw .missingFile
  | some input =>
    return {
      input := input
      sectionName := reading.value? .sectionName
      nameCap := ((reading.value? .nameCap).bind number?).getD defaults.nameCap
      allowPartial := (reading.value? .allowPartial).isSome
      jobs := ((reading.value? .jobs).bind number?).getD defaults.jobs
      format := ((reading.value? .format).bind format?).getD defaults.format
      output := reading.value? .output
      quiet := (reading.value? .quiet).isSome }

end Reading

/-- Reads the arguments of a run, without the name of the program. -/
def parse (arguments : List String) : Except Misuse Arguments := do
  let reading ← arguments.foldlM Reading.read {}
  reading.finish

end Arguments

end Unstrip
