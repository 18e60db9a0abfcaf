import Unstrip.Anchor

/-!
# Headers

`Header.decode` reads and checks the header at an anchor, in this order: the opening lies inside
the image; its magic number, zero bytes and pointer width are right; the whole header lies inside
the image; each position that it names lies inside the image or just behind it; and the image is
large enough for the announced number of records.
-/

namespace Unstrip

/-- A decoded header. Offsets are kept as stored, relative to `anchor`. -/
structure Header where
  /-- The position of the header. -/
  anchor : Nat
  release : Release
  /-- The smallest size of an instruction. -/
  quantum : Nat
  pointerWidth : Nat
  functionCount : Nat
  fileCount : Nat
  /-- Where the code starts; stored addresses are relative to it. Absent if they are absolute. -/
  textStart : Option Nat
  nameOffset : Nat
  unitOffset : Nat
  fileTableOffset : Nat
  pcTableOffset : Nat
  recordOffset : Nat
  deriving DecidableEq, Repr

namespace Header

def size (header : Header) : Nat := header.release.headerSize header.pointerWidth

/-- The width of the address and offset words in function records. -/
def wordWidth (header : Header) : Nat := header.release.wordWidth header.pointerWidth

theorem wordWidth_eq_or_eq_four (header : Header) :
    header.wordWidth = header.pointerWidth ∨ header.wordWidth = 4 := by
  unfold wordWidth Release.wordWidth
  cases header.release with
  | go116 => exact .inl rfl
  | go118 | go120 => exact .inr rfl

/-- The size of a descriptor: an address and an offset. -/
def descriptorSize (header : Header) : Nat := 2 * header.wordWidth

/-- The size of the part of a metadata record that matters here: an address and a name index of
four bytes. -/
def metadataSize (header : Header) : Nat := header.wordWidth + 4

def nameBase (header : Header) : Nat := header.anchor + header.nameOffset

def recordBase (header : Header) : Nat := header.anchor + header.recordOffset

/-- The value of a field in the header of the given release at `base`, or `none` if the release
has no such field. -/
def fieldValue? (image : Image) (base : Nat) (release : Release) (width : Nat) (field : Field) :
    Option Nat :=
  (release.fields.idxOf? field).map fun index =>
    image.number (base + Release.openingSize + index * width) width

/-- The offset that a header holds in the given field; zero for a field that is no offset. -/
def offset (header : Header) : Field → Nat
  | .nameOffset => header.nameOffset
  | .unitOffset => header.unitOffset
  | .fileTableOffset => header.fileTableOffset
  | .pcTableOffset => header.pcTableOffset
  | .recordOffset => header.recordOffset
  | .functionCount | .fileCount | .textStart => 0

/-- The header at `base`, read without any check. -/
def readAt (image : Image) (base : Nat) (release : Release) (pointerWidth : Nat) : Header :=
  let value? := fieldValue? image base release pointerWidth
  { anchor := base
    release := release
    quantum := image.number (base + 6) 1
    pointerWidth := pointerWidth
    functionCount := (value? .functionCount).getD 0
    fileCount := (value? .fileCount).getD 0
    textStart := value? .textStart
    nameOffset := (value? .nameOffset).getD 0
    unitOffset := (value? .unitOffset).getD 0
    fileTableOffset := (value? .fileTableOffset).getD 0
    pcTableOffset := (value? .pcTableOffset).getD 0
    recordOffset := (value? .recordOffset).getD 0 }

/-- Whether the position that a field names lies in an image of the given size, or just behind
it. -/
def IsInside (header : Header) (size : Nat) (field : Field) : Prop :=
  header.anchor + header.offset field < wordLimit ∧ header.anchor + header.offset field ≤ size

instance (header : Header) (size : Nat) (field : Field) :
    Decidable (header.IsInside size field) := by
  unfold IsInside; infer_instance

/-- Whether an image of the given size has room for all descriptors. -/
def HasRoom (header : Header) (size : Nat) : Prop :=
  header.functionCount * header.descriptorSize < wordLimit ∧
    header.functionCount * header.descriptorSize ≤ size

instance (header : Header) (size : Nat) : Decidable (header.HasRoom size) := by
  unfold HasRoom; infer_instance

/-- Checks the first eight bytes of a header, and reads the pointer width. -/
def decodeOpening (image : Image) (anchor : Anchor) : Except Fault Nat := do
  image.span anchor.offset Release.openingSize
  let magic := image.number anchor.offset 4
  if Release.ofMagic? magic ≠ some anchor.release then
    throw (.corrupt (.wrongMagic magic anchor.offset anchor.release))
  let padding := image.number (anchor.offset + 4) 2
  if padding ≠ 0 then throw (.corrupt (.padding padding))
  let pointerWidth := image.number (anchor.offset + 7) 1
  if pointerWidth ≠ 4 ∧ pointerWidth ≠ 8 then throw (.corrupt (.pointerWidth pointerWidth))
  return pointerWidth

/-- Checks the positions and the number of records that a header names. -/
def validate (header : Header) (size : Nat) : Except Fault Unit := do
  match Field.offsets.find? fun field => ¬ header.IsInside size field with
  | some field => throw (.corrupt (.outside field (header.offset field) header.anchor))
  | none => pure ()
  if ¬ header.HasRoom size then throw (.corrupt (.tooManyFunctions header.functionCount))

def decode (image : Image) (anchor : Anchor) : Except Fault Header := do
  let pointerWidth ← decodeOpening image anchor
  image.span anchor.offset (anchor.release.headerSize pointerWidth)
  let header := readAt image anchor.offset anchor.release pointerWidth
  header.validate image.size
  return header

end Header

end Unstrip
