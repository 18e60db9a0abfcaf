import Unstrip.Container.Format

/-!
# Regions

A table is looked for in one region of a file: the section that usually holds it, a section that
the caller asks for, or the whole file. `Region.select` chooses among the sections of a file, given
only how a section is looked up by its name; `Region.ofFile` does so for the file's own sections.
-/

namespace Unstrip

structure Region where
  start : Nat
  size : Nat
  /-- The name of the section, unless the region is the whole file. -/
  sectionName : Option String
  deriving DecidableEq, Repr

/-- Why there is no region. -/
inductive RegionFault where
  /-- A section is asked for, but the file is no object file. -/
  | notAnObject (name : String) (refusal : Container.Refusal)
  /-- The section reaches past the end of the file. -/
  | outside (name : String)
  /-- The section that is asked for does not exist, or occupies no bytes of the file. -/
  | missing (name : String)
  deriving DecidableEq, Repr

def RegionFault.message (path : String) : RegionFault → String
  | .notAnObject name refusal =>
    s!"Cannot look up section {name}: {path} is not an object file ({refusal.message})"
  | .outside name => s!"Section {name} lies outside the file"
  | .missing name => s!"Section {name} not found"

namespace Region

/-- The sections that usually hold the table, the most specific first. -/
def defaultNames : List String := [".gopclntab", "__gopclntab", ".data.rel.ro", ".rdata"]

def whole (file : Image) : Region := ⟨0, file.size, none⟩

def bytes (region : Region) (file : Image) : Image :=
  file.extract region.start (region.start + region.size)

/-- The first of the names whose section occupies bytes of the file, with the range of the
section. -/
def firstOccupied? (rangeOf? : String → Option Container.Range) :
    List String → Option (String × Container.Range)
  | [] => none
  | name :: names =>
    match rangeOf? name with
    | some range => some (name, range)
    | none => firstOccupied? rangeOf? names

/-- The region of a section, which has to lie inside a file of the given size. -/
def ofRange (fileSize : Nat) (name : String) (range : Container.Range) :
    Except RegionFault Region :=
  if range.offset + range.size ≤ fileSize then .ok ⟨range.offset, range.size, some name⟩
  else .error (.outside name)

/-- Chooses the region of a file of which `rangeOf?` tells the range that the first section of a
name occupies. -/
def select (file : Image) (rangeOf? : String → Option Container.Range)
    (requested? : Option String) : Except RegionFault Region :=
  match requested? with
  | some name =>
    match rangeOf? name with
    | some range => ofRange file.size name range
    | none => .error (.missing name)
  | none =>
    match firstOccupied? rangeOf? defaultNames with
    | some (name, range) => ofRange file.size name range
    | none => .ok (whole file)

/-- Chooses the region of a file, given what reading it as an object file came to. -/
def choose (file : Image) (parsed : Except Container.Refusal Container)
    (requested? : Option String) : Except RegionFault Region :=
  match parsed, requested? with
  | .ok container, _ =>
    select file (fun name => (container.section? name).bind (·.range?)) requested?
  | .error refusal, some name => .error (.notAnObject name refusal)
  | .error _, none => .ok (whole file)

def ofFile (file : Image) (requested? : Option String) : Except RegionFault Region :=
  choose file (Container.parse file) requested?

end Region

end Unstrip
