import Unstrip.Container.Basic

/-!
# ELF files

An ELF file of either width and byte order. Beside the section headers, the program headers, the
symbol tables and the targets of relocation sections are checked: a table has to lie inside the
file and to consist of whole entries, and what it refers to has to exist.
-/

namespace Unstrip.Container.Elf

structure Shape where
  is64 : Bool
  order : ByteOrder
  deriving DecidableEq, Repr

namespace Shape

variable (shape : Shape)

def headerSize : Nat := if shape.is64 then 64 else 52

/-- The size of a program header. -/
def segmentSize : Nat := if shape.is64 then 56 else 32

def sectionSize : Nat := if shape.is64 then 64 else 40

def symbolSize : Nat := if shape.is64 then 24 else 16

/-- The size of an address, which is also the boundary of the tables. -/
def wordSize : Nat := if shape.is64 then 8 else 4

/-- The number at the offset for the shape's width. -/
def field (file : Image) (base offset64 offset32 width : Nat) : Nat :=
  shape.order.number file (base + if shape.is64 then offset64 else offset32) width

/-- The word at the offset for the shape's width. -/
def word (file : Image) (base offset64 offset32 : Nat) : Nat :=
  shape.field file base offset64 offset32 shape.wordSize

end Shape

/-- The parts of the file header that lead to the sections. -/
structure FileHeader where
  segmentOffset : Nat
  sectionOffset : Nat
  segmentEntry : Nat
  segmentCount : Nat
  sectionEntry : Nat
  sectionCount : Nat
  namesIndex : Nat

structure SectionHeader where
  nameOffset : Nat
  kind : Nat
  offset : Nat
  size : Nat
  link : Nat
  info : Nat

namespace SectionHeader

/-! The kinds of sections that matter here, by their numbers. -/

def symbols : Nat := 2

def strings : Nat := 3

/-- The kind of a section that holds relocations with addends. -/
def relocations : Nat := 4

/-- The kind of a section that occupies no bytes of the file. -/
def noBits : Nat := 8

/-- The kind of a section that holds relocations without addends. -/
def plainRelocations : Nat := 9

def dynamicSymbols : Nat := 11

/-- The kind of a section that extends a symbol table. -/
def symbolSections : Nat := 18

def range? (header : SectionHeader) : Option Range :=
  if header.kind = noBits then none else some ⟨header.offset, header.size⟩

def holdsRelocations (header : SectionHeader) : Bool :=
  header.kind = plainRelocations || header.kind = relocations

/-- Whether the section's bytes are a table of whole entries inside the file, on the boundary of
an entry. -/
def isTable (file : Image) (entrySize boundary : Nat) (header : SectionHeader) : Bool :=
  header.size % entrySize = 0 && fits file header.offset header.size boundary

end SectionHeader

def readHeader (file : Image) (is64 : Bool) : Except Refusal (Shape × FileHeader) := do
  let size := (Shape.mk is64 .lowestFirst).headerSize
  require (size ≤ file.size) .elfHeader
  let encoding := file.number 5 1
  require ((encoding = 1 || encoding = 2) && file.number 6 1 = 1) .elfUnsupported
  let shape : Shape := ⟨is64, if encoding = 1 then .lowestFirst else .highestFirst⟩
  return (shape,
    { segmentOffset := shape.word file 0 32 28
      sectionOffset := shape.word file 0 40 32
      segmentEntry := shape.field file 0 54 42 2
      segmentCount := shape.field file 0 56 44 2
      sectionEntry := shape.field file 0 58 46 2
      sectionCount := shape.field file 0 60 48 2
      namesIndex := shape.field file 0 62 50 2 })

/-- The section header at `base`, read without any check. -/
def sectionAt (file : Image) (shape : Shape) (base : Nat) : SectionHeader where
  nameOffset := shape.field file base 0 0 4
  kind := shape.field file base 4 4 4
  offset := shape.word file base 24 16
  size := shape.word file base 32 20
  link := shape.field file base 40 24 4
  info := shape.field file base 44 28 4

/-- The first section header, which holds the counts that do not fit in the file header; `none`
if the file has no section headers. -/
def firstSection? (file : Image) (shape : Shape) (header : FileHeader) :
    Except Refusal (Option SectionHeader) := do
  if header.sectionOffset = 0 then return none
  require (header.sectionEntry = shape.sectionSize) .elfSectionSize
  require (fits file header.sectionOffset shape.sectionSize shape.wordSize) .elfFirstSection
  return some (sectionAt file shape header.sectionOffset)

/-- The number from which on the file header refers to the first section header. -/
def reserved : Nat := 0xffff

def checkSegments (file : Image) (shape : Shape) (header : FileHeader) : Except Refusal Unit := do
  if header.segmentOffset = 0 then return
  let count ←
    if header.segmentCount < reserved then pure header.segmentCount
    else
      match ← firstSection? file shape header with
      | some first => pure first.info
      | none => throw .elfSegmentCount
  if count = 0 then return
  require (header.segmentEntry = shape.segmentSize) .elfSegmentSize
  require (fits file header.segmentOffset (count * shape.segmentSize) shape.wordSize) .elfSegments

def readSections (file : Image) (shape : Shape) (header : FileHeader) :
    Except Refusal (List SectionHeader) := do
  if header.sectionOffset = 0 then return []
  let count ←
    if header.sectionCount ≠ 0 then pure header.sectionCount
    else
      match ← firstSection? file shape header with
      | some first => pure first.size
      | none => pure 0
  if count = 0 then return []
  require (header.sectionEntry = shape.sectionSize) .elfSectionSize
  require (fits file header.sectionOffset (count * shape.sectionSize) shape.wordSize) .elfSections
  return (List.range count).map fun i =>
    sectionAt file shape (header.sectionOffset + i * shape.sectionSize)

/-- The range of the section that holds the names of the sections, if it occupies any. -/
def namesRange? (file : Image) (shape : Shape) (header : FileHeader)
    (sections : List SectionHeader) : Except Refusal (Option Range) := do
  if sections.isEmpty then return none
  let index ←
    if header.namesIndex < reserved then pure header.namesIndex
    else
      match ← firstSection? file shape header with
      | some first => pure first.link
      | none => throw .elfNoNamesCount
  require (index ≠ 0) .elfNoNames
  match sections[index]? with
  | none => throw .elfNames
  | some names =>
    match names.range? with
    | none => return none
    | some range =>
      require (range.offset + range.size < wordLimit) .elfNamesSize
      return some range

/-- The size of a number that extends a symbol. -/
def extensionSize : Nat := 4

/-- Checks the section of strings that a symbol table refers to; a table that refers to the first
section has none. -/
def checkStrings (sections : List SectionHeader) (table : SectionHeader) : Except Refusal Unit := do
  if table.link = 0 then return
  match sections[table.link]? with
  | none => throw .elfSectionIndex
  | some strings =>
    require (strings.kind = SectionHeader.strings) .elfStringsType
    require (strings.offset + strings.size < wordLimit) .elfStringsRange

/-- Checks the first symbol table of the given kind, and returns its index; zero if there is
none. -/
def checkSymbols (file : Image) (shape : Shape) (sections : List SectionHeader) (kind : Nat) :
    Except Refusal Nat := do
  match sections.findIdx? (·.kind = kind), sections.find? (·.kind = kind) with
  | some index, some table =>
    require (table.isTable file shape.symbolSize shape.wordSize) .elfSymbols
    checkStrings sections table
    let extensions := sections.filter fun header =>
      header.kind = SectionHeader.symbolSections && header.link = index
    require (extensions.all (SectionHeader.isTable file extensionSize extensionSize)) .elfSymbolSections
    return index
  | _, _ => return 0

/-- Checks the targets of the relocation sections that go with the symbol table of the given
index, from the last section to the first. -/
def checkRelocations (sections : List SectionHeader) (symbols : Nat) : Except Refusal Unit :=
  let relevant := sections.reverse.filter fun header =>
    header.holdsRelocations && header.link = symbols && header.info ≠ 0
  relevant.forM fun header =>
    match sections[header.info]? with
    | none => .error .elfRelocationTarget
    | some target => require (! target.holdsRelocations) .elfRelocationChain

def parse (file : Image) (is64 : Bool) : Except Refusal Container := do
  let (shape, header) ← readHeader file is64
  checkSegments file shape header
  let headers ← readSections file shape header
  let names? ← namesRange? file shape header headers
  let symbols ← checkSymbols file shape headers SectionHeader.symbols
  let _ ← checkSymbols file shape headers SectionHeader.dynamicSymbols
  checkRelocations headers symbols
  let nameOf (header : SectionHeader) := do
    let names ← names?
    stringAt? file (names.offset + header.nameOffset) (names.offset + names.size)
  return ⟨headers.map fun header => ⟨nameOf header, header.range?⟩, .exact⟩

end Unstrip.Container.Elf
