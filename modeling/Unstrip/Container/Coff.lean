import Unstrip.Container.Basic

/-!
# COFF objects and portable executables

Both formats share their section headers, and the rule by which a long name is found in the string
table behind the symbols. A portable executable opens as an MS-DOS program that leads to its
headers; the string table of one is not needed and may be damaged.
-/

namespace Unstrip.Container.Coff

def sectionSize : Nat := 40

/-- The size of a symbol of an object or executable. -/
def symbolSize : Nat := 18

/-- The size of a symbol of a large object. -/
def wideSymbolSize : Nat := 20

/-- The value of a digit in a name that refers to the string table by a base-64 number. -/
def base64Value? (b : UInt8) : Option Nat :=
  if 0x41 ≤ b ∧ b ≤ 0x5a then some (b.toNat - 0x41)
  else if 0x61 ≤ b ∧ b ≤ 0x7a then some (b.toNat - 0x61 + 26)
  else if 0x30 ≤ b ∧ b ≤ 0x39 then some (b.toNat - 0x30 + 52)
  else if b = 0x2b then some 62
  else if b = 0x2f then some 63
  else none

def decimalValue? (b : UInt8) : Option Nat :=
  if 0x30 ≤ b ∧ b ≤ 0x39 then some (b.toNat - 0x30) else none

/-- The number that digits of the given base spell, unless one of them is none. -/
def numeral? (base : Nat) (digit? : UInt8 → Option Nat) (bytes : List UInt8) : Option Nat :=
  bytes.foldlM (fun n b => (digit? b).map fun d => n * base + d) 0

/-- The name in the eight bytes of a section header. A name that opens with a slash is a decimal
offset into the string table, one that opens with two slashes a base-64 offset. -/
def sectionName? (file : Image) (strings? : Option Range) (raw : List UInt8) :
    Option (List UInt8) :=
  let lookUp (offset : Nat) := do
    let strings ← strings?
    stringAt? file (strings.offset + offset) (strings.offset + strings.size)
  match raw with
  | 0x2f :: 0x2f :: digits => do
    let offset ← numeral? 64 base64Value? digits
    if offset < 1 <<< 32 then lookUp offset else none
  | 0x2f :: digits => do
    let offset ← numeral? 10 decimalValue? (digits.takeWhile (· != 0))
    lookUp offset
  | _ => some (raw.takeWhile (· != 0))

/-- The range that a section of an object occupies, given its raw size and offset and its
characteristics. -/
def objectRange? (file : Image) (base : Nat) : Option Range :=
  let isUninitialised := file.number (base + 36) 4 / 0x80 % 2 = 1
  if isUninitialised then none else some ⟨file.number (base + 20) 4, file.number (base + 16) 4⟩

/-- The range that a section of an executable occupies: no more than its size in memory. -/
def executableRange? (file : Image) (base : Nat) : Option Range :=
  let size := min (file.number (base + 8) 4) (file.number (base + 16) 4)
  if size = 0 then none else some ⟨file.number (base + 20) 4, size⟩

def readSections (file : Image) (offset count : Nat) (strings? : Option Range)
    (range? : Image → Nat → Option Range) : Except Refusal Container := do
  require (fits file offset (count * sectionSize) 4) .coffSections
  let bases := (List.range count).map fun i => offset + i * sectionSize
  return ⟨bases.map fun base =>
    ⟨sectionName? file strings? (file.slice base 8), range? file base⟩, .exact⟩

/-- The range of the string table behind `count` symbols of the given size at `offset`. There is
none if the offset is zero. -/
def readStrings (file : Image) (offset count symbolSize : Nat) :
    Except Refusal (Option Range) := do
  if offset = 0 then return none
  let stringsAt := offset + count * symbolSize
  require (fits file offset (count * symbolSize) 1) .coffSymbols
  require (fits file stringsAt 4 1) .coffStrings
  return some ⟨stringsAt, file.number stringsAt 4⟩

def parseObject (file : Image) : Except Refusal Container := do
  require (fits file 0 20 1) .coffHeader
  let strings? := readStrings file (file.number 8 4) (file.number 12 4) symbolSize
  let sectionsAt := 20 + file.number 16 2
  let count := file.number 2 2
  require (fits file sectionsAt (count * sectionSize) 4) .coffSections
  readSections file sectionsAt count (← strings?) objectRange?

def bigObjectClass : List UInt8 :=
  [0xc7, 0xa1, 0xba, 0xd1, 0xee, 0xba, 0xa9, 0x4b, 0xaf, 0x20, 0xfa, 0xf6, 0x6a, 0xa4, 0xdc, 0xb8]

/-- Reads a large object, which has room for more sections. -/
def parseBigObject (file : Image) : Except Refusal Container := do
  require (fits file 0 56 1) .coffBigHeader
  let strings? := readStrings file (file.number 48 4) (file.number 52 4) wideSymbolSize
  let count := file.number 44 4
  require (fits file 56 (count * sectionSize) 4) .coffSections
  readSections file 56 count (← strings?) objectRange?

/-- The position of the headers of a portable executable. -/
def headersAt (file : Image) : Nat := file.number 0x3c 4

/-- The number that tells the two widths of a portable executable apart. -/
def optionalMagic? (file : Image) : Option Nat :=
  let base := headersAt file
  if fits file 0 64 1 ∧ fits file base 120 4 ∧ file.slice base 4 = [0x50, 0x45, 0, 0] then
    some (file.number (base + 24) 2)
  else none

def parseExecutable (file : Image) (is64 : Bool) : Except Refusal Container := do
  let base := headersAt file
  let fixedSize := if is64 then 112 else 96
  require (fits file base (24 + fixedSize) (if is64 then 8 else 4)) .peHeader
  require (file.number (base + 24) 2 = if is64 then 0x20b else 0x10b) .peMagic
  let optionalSize := file.number (base + 20) 2
  require (fixedSize ≤ optionalSize) .peOptionalSize
  require (fits file base (24 + optionalSize) 1) .peOptionalRange
  let directories := file.number (base + 24 + fixedSize - 4) 4
  require (fixedSize + directories * 8 ≤ optionalSize) .peDirectories
  let strings? :=
    match readStrings file (file.number (base + 12) 4) (file.number (base + 16) 4) symbolSize with
    | .ok strings? => strings?
    | .error _ => none
  readSections file (base + 24 + optionalSize) (file.number (base + 6) 2) strings?
    executableRange?

end Unstrip.Container.Coff
