import Unstrip.Descriptor
import Unstrip.Event

/-!
# Function names

A name takes two steps from its descriptor: the metadata record at the descriptor's offset holds
the function's address once more and a name index, and the name stands at that index in the name
area, ended by a zero byte.
-/

namespace Unstrip

/-- The part of a metadata record that matters for naming. -/
structure Metadata where
  address : Nat
  nameIndex : Nat
  deriving DecidableEq, Repr

/-- A function's name, and the address in the metadata record that led to it. -/
structure NameEntry where
  name : String
  metadataAddress : Nat
  deriving DecidableEq, Repr

/-- The names of one table: where metadata records and names are found, and how long a name may
be. -/
structure NameTable where
  image : Image
  /-- The position that metadata offsets are relative to. -/
  recordBase : Nat
  /-- The position that name indices are relative to. -/
  nameBase : Nat
  /-- The width of a word. -/
  width : Nat
  textStart : Option Nat
  /-- The greatest number of bytes in a name. -/
  nameCap : Nat

namespace NameTable

def ofHeader (image : Image) (header : Header) (nameCap : Nat) : NameTable where
  image := image
  recordBase := header.recordBase
  nameBase := header.nameBase
  width := header.wordWidth
  textStart := header.textStart
  nameCap := nameCap

section
variable (image : Image) (header : Header) (nameCap : Nat)

@[simp] theorem image_ofHeader : (ofHeader image header nameCap).image = image := rfl

@[simp] theorem recordBase_ofHeader : (ofHeader image header nameCap).recordBase = header.recordBase := rfl

@[simp] theorem nameBase_ofHeader : (ofHeader image header nameCap).nameBase = header.nameBase := rfl

@[simp] theorem width_ofHeader : (ofHeader image header nameCap).width = header.wordWidth := rfl

@[simp] theorem textStart_ofHeader : (ofHeader image header nameCap).textStart = header.textStart := rfl

@[simp] theorem nameCap_ofHeader : (ofHeader image header nameCap).nameCap = nameCap := rfl

end

def metadata (names : NameTable) (descriptor : Descriptor) : Except Fault Metadata := do
  let offset ← positionAfter names.recordBase descriptor.metadataOffset
  names.image.span offset (names.width + 4)
  let entry ← names.image.readWord offset names.width
  let nameIndex ← names.image.readNumber (offset + names.width) 4
  let address ← absoluteAddress names.textStart entry
  return ⟨address, nameIndex⟩

def name (names : NameTable) (nameIndex : Nat) : Except Fault String := do
  let offset ← positionAfter names.nameBase nameIndex
  let bytes ← names.image.cString offset names.nameCap
  match Utf8.decode bytes with
  | .ok characters => return String.ofList characters
  | .error fault => throw (.corrupt (.badName offset fault))

def follow (names : NameTable) (descriptor : Descriptor) : Except Fault NameEntry := do
  let metadata ← names.metadata descriptor
  let name ← names.name metadata.nameIndex
  return ⟨name, metadata.address⟩

/-- Follows a descriptor to its name, and tells at once if the metadata record on the way disagrees. -/
def tellFollow (names : NameTable) (descriptor : Descriptor) : ExceptT Fault Logged NameEntry := do
  let metadata ← Logged.silently (names.metadata descriptor)
  let name ← Logged.silently (names.name metadata.nameIndex)
  if metadata.address ≠ descriptor.address then
    ExceptT.lift (Logged.tell (.addressMismatch name descriptor.address metadata.address))
  return ⟨name, metadata.address⟩

end NameTable

end Unstrip
