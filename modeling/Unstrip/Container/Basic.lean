import Unstrip.Image

/-!
# Sections of object files

The formats of object files differ in their headers, but all of them hold sections. A `Section` is
known by its name and by the range of the file that it occupies, as its header states it: nothing
says that the range lies inside the file. This module also holds what the readers of all formats
share: numbers of either byte order, the check that a table lies inside the file on its natural
boundary, and strings out of a string table.
-/

namespace Unstrip.Container

/-- Which byte of a number comes first. -/
inductive ByteOrder where
  | lowestFirst
  | highestFirst
  deriving DecidableEq, Repr

def ByteOrder.number (order : ByteOrder) (file : Image) (offset width : Nat) : Nat :=
  match order with
  | .lowestFirst => LittleEndian.toNat (file.slice offset width)
  | .highestFirst => LittleEndian.toNat (file.slice offset width).reverse

/-- Whether the `length` bytes at `offset` lie inside the file and begin at a multiple of
`boundary`. -/
def fits (file : Image) (offset length boundary : Nat) : Bool :=
  offset + length ≤ file.size && offset % boundary = 0

/-- Why a file cannot be read as an object file: it is of no format that is read, or the named part
of its format is damaged. -/
inductive Refusal where
  /-- The file is too short to show its format. -/
  | noMagic
  /-- No known format begins like this. -/
  | unknownMagic
  /-- The format is known but not read. -/
  | unsupportedFormat
  /-- An MS-DOS program without a portable executable inside. -/
  | unknownProgram
  /-- An anonymous object of an unknown class. -/
  | unknownObject
  | elfHeader
  | elfUnsupported
  | elfSegmentSize
  | elfSegments
  | elfSegmentCount
  | elfSectionSize
  | elfFirstSection
  | elfSections
  | elfNoNames
  | elfNoNamesCount
  | elfNames
  | elfNamesSize
  | elfSymbols
  | elfSectionIndex
  | elfStringsType
  | elfStringsRange
  | elfSymbolSections
  | elfRelocationTarget
  | elfRelocationChain
  | peHeader
  | peMagic
  | peOptionalSize
  | peOptionalRange
  | peDirectories
  | coffHeader
  | coffBigHeader
  | coffSections
  | coffSymbols
  | coffStrings
  | machHeader
  | machCommand
  | machSections
  | machSymbols
  deriving DecidableEq, Repr

def Refusal.message : Refusal → String
  | noMagic => "Could not read file magic"
  | unknownMagic => "Unknown file magic"
  | unsupportedFormat => "Unsupported file format"
  | unknownProgram => "Unknown MS-DOS file"
  | unknownObject => "Unknown anon object file"
  | elfHeader => "Invalid ELF header size or alignment"
  | elfUnsupported => "Unsupported ELF header"
  | elfSegmentSize => "Invalid ELF program header entry size"
  | elfSegments => "Invalid ELF program header size or alignment"
  | elfSegmentCount => "Missing ELF section headers for e_phnum overflow"
  | elfSectionSize => "Invalid ELF section header entry size"
  | elfFirstSection => "Invalid ELF section header offset or size"
  | elfSections => "Invalid ELF section header offset/size/alignment"
  | elfNoNames => "Missing ELF e_shstrndx"
  | elfNoNamesCount => "Missing ELF section headers for e_shstrndx overflow"
  | elfNames => "Invalid ELF e_shstrndx"
  | elfNamesSize => "Invalid ELF shstrtab size"
  | elfSymbols => "Invalid ELF symbol table data"
  | elfSectionIndex => "Invalid ELF section index"
  | elfStringsType => "Invalid ELF string section type"
  | elfStringsRange => "Invalid ELF string section offset or size"
  | elfSymbolSections => "Invalid ELF symtab_shndx data"
  | elfRelocationTarget => "Invalid ELF sh_info for relocation section"
  | elfRelocationChain => "Unsupported ELF sh_info for relocation section"
  | peHeader => "Invalid PE headers offset or size"
  | peMagic => "Invalid PE optional header magic"
  | peOptionalSize => "PE optional header size is too small"
  | peOptionalRange => "Invalid PE optional header size"
  | peDirectories => "Invalid PE number of RVA and sizes"
  | coffHeader => "Invalid COFF file header size or alignment"
  | coffBigHeader => "Invalid COFF bigobj file header size or alignment"
  | coffSections => "Invalid COFF/PE section headers"
  | coffSymbols => "Invalid COFF symbol table offset or size"
  | coffStrings => "Missing COFF string table"
  | machHeader => "Invalid Mach-O header size or alignment"
  | machCommand => "Invalid Mach-O command size"
  | machSections => "Invalid Mach-O number of sections"
  | machSymbols => "Invalid Mach-O symbol table offset or size"

def require (condition : Bool) (refusal : Refusal) : Except Refusal Unit :=
  if condition then .ok () else .error refusal

structure Range where
  offset : Nat
  size : Nat
  deriving DecidableEq, Repr

structure Section where
  /-- The bytes of its name, unless they cannot be read. -/
  name? : Option (List UInt8)
  /-- The range that it occupies in the file, if it occupies any. -/
  range? : Option Range
  deriving DecidableEq, Repr

/-- How a section is recognised by the name that is looked for. -/
inductive Naming where
  /-- By exactly this name. -/
  | exact
  /-- Also by the name with its leading dot replaced by two underscores, cut to 16 bytes. -/
  | underscored
  deriving DecidableEq, Repr

/-- The bytes of a string table entry: those from `start` up to the first zero byte, which has to
stand before `stop`, inside the file. -/
def stringAt? (file : Image) (start stop : Nat) : Option (List UInt8) :=
  if start ≤ stop ∧ stop ≤ file.size then
    (file.zeroFrom? (stop - start) start).map fun finish => file.slice start (finish - start)
  else none

/-- The bytes of a name of fixed width: those before the first zero byte, or all of them. -/
def fixedName (file : Image) (offset width : Nat) : List UInt8 :=
  (file.slice offset width).takeWhile (· != 0)

end Unstrip.Container

namespace Unstrip

/-- The sections of an object file in order. -/
structure Container where
  sections : List Container.Section
  naming : Container.Naming
  deriving DecidableEq, Repr

end Unstrip
