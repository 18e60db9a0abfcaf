import Unstrip.Program

/-!
# The command line

The outer layer of the program: it hands the arguments and the file to `Unstrip.Program`, and
prints or writes what comes back. Nothing is decided here.
-/

namespace Unstrip.CommandLine

/-- The number of a system error, which may be given with its sign changed. -/
def errorNumber (code : UInt32) : Nat := min code.toNat (0 - code).toNat

def openFault (error : IO.Error) : OpenFault :=
  match error with
  | .noFileOrDirectory _ _ _ => .absent
  | .inappropriateType _ code _ =>
    if errorNumber code = 20 then .notDirectory else .isDirectory
  | .permissionDenied _ code _ => .other (errorNumber code) "Permission denied"
  | other => .other 0 (toString other)

/-- Prints the notes about a report, and the report itself or, if there is an output file, where
it has been written. -/
def deliver (arguments : Arguments) (report : Report) : IO UInt32 := do
  let text := report.render arguments.format
  IO.eprint (Program.notesUnlessQuiet arguments (Program.notes report))
  let code := UInt32.ofNat (Program.exitOf report).code
  match arguments.output with
  | none =>
    IO.print text
    return code
  | some path =>
    try
      IO.FS.writeBinFile path text.toUTF8
      IO.eprint (Program.notesUnlessQuiet arguments [s!"output: {path}"])
      return code
    catch error =>
      IO.eprint (Program.errorLine arguments (.output path (openFault error)))
      return UInt32.ofNat Program.Exit.failure.code

def run (args : List String) : IO UInt32 := do
  match Arguments.parse args with
  | .error misuse =>
    IO.eprintln "usage: gosym [OPTIONS] <FILE>"
    return UInt32.ofNat (Program.misuseCode misuse)
  | .ok arguments =>
    let opened ←
      try
        let contents ← IO.FS.readBinFile arguments.input
        pure (Except.ok contents.data)
      catch error => pure (.error (openFault error))
    match Program.respond arguments opened 1 with
    | .ok report => deliver arguments report
    | .error failure =>
      IO.eprint (Program.errorLine arguments failure)
      return UInt32.ofNat Program.Exit.failure.code

end Unstrip.CommandLine

def main (args : List String) : IO UInt32 := Unstrip.CommandLine.run args
