import Unstrip.NameTable
import Unstrip.Options

/-!
# Function records

`Records` joins the descriptors of a table with their names. `symbolAt` is the symbol of one record;
`tellSymbolAt` resolves the record step by step, and tells of it before it is done.
-/

namespace Unstrip

/-- The symbol of a descriptor and the name that it leads to. -/
def symbolFrom (descriptor : Descriptor) (entry : NameEntry) : Symbol :=
  ⟨entry.name, descriptor.address,
    if entry.metadataAddress ≠ descriptor.address then some entry.metadataAddress else none⟩

structure Records where
  descriptors : DescriptorTable
  names : NameTable

namespace Records

def ofHeader (image : Image) (header : Header) (nameCap : Nat) : Records where
  descriptors := .ofHeader image header
  names := .ofHeader image header nameCap

def count (records : Records) : Nat := records.descriptors.count

section
variable (image : Image) (header : Header) (nameCap : Nat)

@[simp] theorem descriptors_ofHeader :
    (ofHeader image header nameCap).descriptors = .ofHeader image header := rfl

@[simp] theorem names_ofHeader :
    (ofHeader image header nameCap).names = .ofHeader image header nameCap := rfl

@[simp] theorem count_ofHeader : (ofHeader image header nameCap).count = header.functionCount := rfl

end

def symbolOf (records : Records) (descriptor : Descriptor) : Except Fault Symbol := do
  let entry ← records.names.follow descriptor
  return symbolFrom descriptor entry

def symbolAt (records : Records) (index : Nat) : Except Fault Symbol := do
  let descriptor ← records.descriptors.get index
  records.symbolOf descriptor

/-- Resolves the record with the given index, and tells while doing so. -/
def tellSymbolAt (records : Records) (index : Nat) : ExceptT Fault Logged Symbol := do
  let descriptor ← Logged.silently (records.descriptors.get index)
  let entry ← records.names.tellFollow descriptor
  return symbolFrom descriptor entry

end Records

end Unstrip
