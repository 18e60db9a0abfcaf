import Unstrip.LittleEndian

/-!
# Releases of the table format

The linker has changed the table's layout from release to release. A header opens with eight
bytes (a magic number, two zero bytes, the instruction quantum and the pointer width) and goes
on with fields of one pointer each. A `Release` fixes the magic number, which fields follow in
which order, how wide the words of a function record are, and whether addresses count from the
start of the code.

| magic        | release | fields after the first eight bytes                      | record word |
|--------------|---------|---------------------------------------------------------|-------------|
| `0xfffffffa` | Go 1.16 | functions files names units file-table pc-table records | a pointer   |
| `0xfffffff0` | Go 1.18 | functions files text names … records                    | four bytes  |
| `0xfffffff1` | Go 1.20 | as for Go 1.18                                          | four bytes  |
-/

namespace Unstrip

inductive Release where
  | go116
  | go118
  | go120
  deriving DecidableEq, Repr

/-- A header field after the first eight bytes. -/
inductive Field where
  | functionCount
  | fileCount
  | textStart
  | nameOffset
  | unitOffset
  | fileTableOffset
  | pcTableOffset
  | recordOffset
  deriving DecidableEq, Repr

namespace Field

def label : Field → String
  | functionCount => "nfunc"
  | fileCount => "nfiles"
  | textStart => "textStart"
  | nameOffset => "funcname"
  | unitOffset => "cu"
  | fileTableOffset => "filetab"
  | pcTableOffset => "pctab"
  | recordOffset => "pcln"

/-- The fields that hold a position relative to the header, in the order in which they are
checked. -/
def offsets : List Field :=
  [nameOffset, unitOffset, fileTableOffset, pcTableOffset, recordOffset]

end Field

namespace Release

/-- The supported releases, oldest first. -/
def all : List Release := [go116, go118, go120]

def magic : Release → Nat
  | go116 => 0xfffffffa
  | go118 => 0xfffffff0
  | go120 => 0xfffffff1

def ofMagic? (magic : Nat) : Option Release := all.find? (·.magic == magic)

def title : Release → String
  | go116 => "Go 1.16"
  | go118 => "Go 1.18"
  | go120 => "Go 1.20"

/-- The bytes that give a header away: the magic number and the two zero bytes after it. -/
def signature (release : Release) : List UInt8 :=
  LittleEndian.ofNat 4 release.magic ++ [0, 0]

/-- The header fields after the first eight bytes, in order. -/
def fields : Release → List Field
  | go116 =>
    [.functionCount, .fileCount, .nameOffset, .unitOffset, .fileTableOffset, .pcTableOffset,
      .recordOffset]
  | go118 | go120 =>
    [.functionCount, .fileCount, .textStart, .nameOffset, .unitOffset, .fileTableOffset,
      .pcTableOffset, .recordOffset]

/-- The number of bytes before the fields: magic, zero bytes, quantum and pointer width. -/
def openingSize : Nat := 8

def headerSize (release : Release) (pointerWidth : Nat) : Nat :=
  openingSize + release.fields.length * pointerWidth

/-- The width of the address and offset words in function records. -/
def wordWidth (release : Release) (pointerWidth : Nat) : Nat :=
  match release with
  | go116 => pointerWidth
  | go118 | go120 => 4

def isTextRelative : Release → Bool
  | go116 => false
  | go118 | go120 => true

@[simp] theorem ofMagic?_magic (release : Release) : ofMagic? release.magic = some release := by
  cases release <;> rfl

@[simp] theorem ofMagic?_eq_some_iff {magic : Nat} {release : Release} :
    ofMagic? magic = some release ↔ magic = release.magic := by
  constructor
  · intro h
    have := List.find?_some h
    simpa using (beq_iff_eq.1 this).symm
  · rintro rfl
    exact ofMagic?_magic release

@[simp] theorem length_signature (release : Release) : release.signature.length = 6 := by
  simp [signature]

end Release

end Unstrip
