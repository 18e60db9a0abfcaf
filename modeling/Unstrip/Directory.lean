import Unstrip.Image

/-!
# Directories

The program reads one file and may write another. `Directory` is the working directory as far as
the program can see it: plain files with their contents. What lies outside of it counts as absent.
-/

namespace Unstrip

/-- Why the system refuses to open a file. -/
inductive OpenFault where
  | absent
  | notDirectory
  | isDirectory
  /-- Another error of the system, with its number and wording. -/
  | other (code : Nat) (text : String)
  deriving DecidableEq, Repr

namespace OpenFault

def message : OpenFault → String
  | absent => "No such file or directory (os error 2)"
  | notDirectory => "Not a directory (os error 20)"
  | isDirectory => "Is a directory (os error 21)"
  | other code text => s!"{text} (os error {code})"

end OpenFault

/-- The plain files of a directory, by name. -/
structure Directory where
  files : List (String × Image)
  deriving DecidableEq, Repr

namespace Directory

/-- What a path leads to. -/
inductive Target where
  /-- A directory. -/
  | directory
  /-- A name in the working directory; `asDirectory` if the path ends with a slash after it. -/
  | entry (name : String) (asDirectory : Bool)
  /-- Nothing: the path goes on behind the named entry, as if that were a directory. -/
  | through (name : String)
  /-- Something outside of the working directory. -/
  | elsewhere
  deriving DecidableEq, Repr

/-- Follows the parts of a path from the working directory. -/
def follow : List String → Target
  | [] => .directory
  | "" :: parts => follow parts
  | "." :: parts => follow parts
  | ".." :: parts => if parts.all (· ∈ ["", ".", ".."]) then .directory else .elsewhere
  | [name] => .entry name false
  | name :: parts => if parts.all (·.isEmpty) then .entry name true else .through name

/-- The parts of a path, which are separated by slashes. -/
def parts (path : String) : List String := (path.toList.splitOn '/').map String.ofList

def target (path : String) : Target :=
  match parts path with
  | "" :: part :: parts =>
    if (part :: parts).all (· ∈ ["", ".", ".."]) then .directory else .elsewhere
  | parts => follow parts

def contents? (directory : Directory) (name : String) : Option Image :=
  (directory.files.find? (·.1 == name)).map (·.2)

/-- Replaces the contents of the file with the given name, which comes into being if it does not
exist. -/
def put (directory : Directory) (name : String) (contents : Image) : Directory :=
  ⟨(name, contents) :: directory.files.filter (·.1 != name)⟩

section
variable {directory : Directory} {contents : Image}

@[simp] theorem contents?_put_self (name : String) :
    (directory.put name contents).contents? name = some contents := by
  simp [contents?, put]

@[simp] theorem contents?_put_of_ne {name other : String} (h : other ≠ name) :
    (directory.put name contents).contents? other = directory.contents? other := by
  -- the files that are dropped have the name, so none of them is looked for
  have hskip : ∀ file : String × Image,
      ((file.1 != name) = true ∧ (file.1 == other) = true) ↔ (file.1 == other) = true := by
    intro file
    simp only [bne_iff_ne, beq_iff_eq, and_iff_right_iff_imp]
    rintro rfl
    exact h
  simp only [contents?, put, List.find?_cons, beq_false_of_ne h.symm, List.find?_filter, hskip,
    Bool.decide_eq_true]

end

/-- The fault of a path that goes on behind an entry. -/
def throughFault (directory : Directory) (name : String) : OpenFault :=
  if (directory.contents? name).isSome then .notDirectory else .absent

def read (directory : Directory) (path : String) : Except OpenFault Image :=
  match target path with
  | .directory => .error .isDirectory
  | .elsewhere => .error .absent
  | .through name => .error (directory.throughFault name)
  | .entry name asDirectory =>
    match directory.contents? name with
    | none => .error .absent
    | some contents => if asDirectory then .error .notDirectory else .ok contents

def write (directory : Directory) (path : String) (contents : Image) :
    Except OpenFault Directory :=
  match target path with
  | .directory => .error .isDirectory
  | .elsewhere => .error .absent
  | .through name => .error (directory.throughFault name)
  | .entry name asDirectory =>
    if asDirectory then .error .isDirectory else .ok (directory.put name contents)

end Directory

end Unstrip
