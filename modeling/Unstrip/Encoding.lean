import Unstrip.Image
import Unstrip.Symbol.Table

/-!
# Writing tables

`TableSource.encode` lays out a table as linkers do: leading bytes, the header, the names, and at
the next multiple of eight the descriptors, followed by the metadata records. It is the
counterpart of `extract`, which recovers `TableSource.symbols` from it as long as every value fits
in its field.
-/

namespace Unstrip

structure FunctionSource where
  name : String
  /-- Where the function starts, as its descriptor says. -/
  address : Nat
  /-- Where the function starts, as its metadata record says. -/
  metadataAddress : Nat
  deriving DecidableEq, Repr

structure TableSource where
  release : Release
  pointerWidth : Nat
  quantum : UInt8
  /-- The number of zero bytes before the header. -/
  leading : Nat
  /-- Where the code starts. -/
  textStart : Nat
  functions : List FunctionSource
  deriving DecidableEq, Repr

namespace TableSource

variable (source : TableSource)

/-- The symbols that the table stands for. -/
def symbols : List Symbol :=
  source.functions.map fun function =>
    { name := function.name
      address := function.address
      metadataAddress :=
        if function.metadataAddress = function.address then none
        else some function.metadataAddress }

@[simp] theorem length_symbols : source.symbols.length = source.functions.length := by simp [symbols]

def wordWidth : Nat := source.release.wordWidth source.pointerWidth

def descriptorSize : Nat := 2 * source.wordWidth

def metadataSize : Nat := source.wordWidth + 4

def headerSize : Nat := source.release.headerSize source.pointerWidth

/-- A name as it is stored, with the zero byte that ends it. -/
def storedName (name : String) : List UInt8 := name.toUTF8.toList ++ [0]

def nameArea : List UInt8 := source.functions.flatMap fun function => storedName function.name

/-- Where the names end, relative to the header. -/
def nameEnd : Nat := source.headerSize + source.nameArea.length

/-- Where the descriptors begin, relative to the header: at a multiple of eight. -/
def recordOffset : Nat := (source.nameEnd + 7) / 8 * 8

/-- Where the metadata records begin, relative to the descriptors. -/
def metadataOffset : Nat := source.functions.length * source.descriptorSize

def fieldValue : Field → Nat
  | .functionCount => source.functions.length
  | .fileCount => 0
  | .textStart => source.textStart
  | .nameOffset => source.headerSize
  | .unitOffset | .fileTableOffset | .pcTableOffset => source.nameEnd
  | .recordOffset => source.recordOffset

def headerBytes : List UInt8 :=
  source.release.signature ++ [source.quantum, UInt8.ofNat source.pointerWidth]
    ++ source.release.fields.flatMap fun field =>
      LittleEndian.ofNat source.pointerWidth (source.fieldValue field)

def storedAddress (address : Nat) : Nat :=
  if source.release.isTextRelative then address - source.textStart else address

/-- The descriptors of the given functions, of which the first has its metadata record at
`metadataOffset`. -/
def descriptorBytes (metadataOffset : Nat) : List FunctionSource → List UInt8
  | [] => []
  | function :: functions =>
    LittleEndian.ofNat source.wordWidth (source.storedAddress function.address)
      ++ LittleEndian.ofNat source.wordWidth metadataOffset
      ++ descriptorBytes (metadataOffset + source.metadataSize) functions

/-- The metadata records of the given functions, of which the first has its name at `nameIndex`. -/
def metadataBytes (nameIndex : Nat) : List FunctionSource → List UInt8
  | [] => []
  | function :: functions =>
    LittleEndian.ofNat source.wordWidth (source.storedAddress function.metadataAddress)
      ++ LittleEndian.ofNat 4 nameIndex
      ++ metadataBytes (nameIndex + (storedName function.name).length) functions

def encode : Image :=
  (List.replicate source.leading 0 ++ source.headerBytes ++ source.nameArea
    ++ List.replicate (source.recordOffset - source.nameEnd) 0
    ++ source.descriptorBytes source.metadataOffset source.functions
    ++ source.metadataBytes 0 source.functions).toArray

end TableSource

end Unstrip
