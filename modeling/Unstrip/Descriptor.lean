import Unstrip.Header

/-!
# Function descriptors

The header is followed, at its record offset, by one descriptor for each function: the address of
the function and the offset of its metadata record, both as words of the release's width.
`DescriptorTable.get` reads one by its index; `collect` reads them in order up to the first that
fails; a `Cursor` hands them out one at a time.
-/

namespace Unstrip

/-- Where a function starts, and where its metadata record is (relative to the first
descriptor). -/
structure Descriptor where
  address : Nat
  metadataOffset : Nat
  deriving DecidableEq, Repr

/-- The address that a stored word stands for, given where the code starts. -/
def absoluteAddress (textStart : Option Nat) (entry : Nat) : Except Fault Nat :=
  match textStart with
  | none => .ok entry
  | some text =>
    if text + entry < wordLimit then .ok (text + entry)
    else .error (.corrupt (.addressOverflow entry text))

/-- The results of `f` at `start`, `start + 1`, … for at most `count` indices, appended to `done`.
The first failure ends the list and is returned with it. -/
def collectFrom {ε α : Type} (f : Nat → Except ε α) :
    (count start : Nat) → (done : Array α) → Array α × Option ε
  | 0, _, done => (done, none)
  | count + 1, start, done =>
    match f start with
    | .ok a => collectFrom f count (start + 1) (done.push a)
    | .error e => (done, some e)

structure DescriptorTable where
  image : Image
  /-- The position of the first descriptor. -/
  base : Nat
  /-- The number of descriptors that the header announces. -/
  count : Nat
  /-- The width of a word. -/
  width : Nat
  textStart : Option Nat

namespace DescriptorTable

def ofHeader (image : Image) (header : Header) : DescriptorTable where
  image := image
  base := header.recordBase
  count := header.functionCount
  width := header.wordWidth
  textStart := header.textStart

def descriptorSize (table : DescriptorTable) : Nat := 2 * table.width

section
variable (image : Image) (header : Header)

@[simp] theorem image_ofHeader : (ofHeader image header).image = image := rfl

@[simp] theorem base_ofHeader : (ofHeader image header).base = header.recordBase := rfl

@[simp] theorem count_ofHeader : (ofHeader image header).count = header.functionCount := rfl

@[simp] theorem width_ofHeader : (ofHeader image header).width = header.wordWidth := rfl

@[simp] theorem textStart_ofHeader : (ofHeader image header).textStart = header.textStart := rfl

end

def isEmpty (table : DescriptorTable) : Bool := table.count == 0

def get (table : DescriptorTable) (index : Nat) : Except Fault Descriptor := do
  if table.count ≤ index then throw (.corrupt (.noRecord index table.count))
  let distance := index * table.descriptorSize
  if wordLimit ≤ distance then throw (.corrupt .recordOverflow)
  let offset ← positionAfter table.base distance
  table.image.span offset table.descriptorSize
  let entry ← table.image.readWord offset table.width
  let metadataOffset ← table.image.readWord (offset + table.width) table.width
  let address ← absoluteAddress table.textStart entry
  return ⟨address, metadataOffset⟩

/-- A reading of a whole table that stopped early. -/
structure Interruption where
  /-- The descriptors before the first that failed. -/
  read : Array Descriptor
  /-- How many descriptors there should have been. -/
  expected : Nat
  fault : Fault
  deriving DecidableEq, Repr

def Interruption.message (stop : Interruption) : String :=
  let done := stop.read.size
  let expected := stop.expected
  let reason := stop.fault.message
  s!"Function table read stopped after {done} of {expected} descriptors: {reason}"

def collect (table : DescriptorTable) : Except Interruption (Array Descriptor) :=
  match collectFrom table.get table.count 0 #[] with
  | (read, none) => .ok read
  | (read, some fault) => .error ⟨read, table.count, fault⟩

/-- A place in a table from which descriptors are handed out in order. A copy of a cursor goes on
from the same place. -/
structure Cursor where
  table : DescriptorTable
  /-- The index of the descriptor that comes next. -/
  next : Nat
  /-- Whether a descriptor has failed; nothing comes after it. -/
  isDone : Bool

def cursor (table : DescriptorTable) : Cursor := ⟨table, 0, false⟩

namespace Cursor

/-- The next descriptor or its failure, and the cursor behind it; `none` at the end. -/
def step (cursor : Cursor) : Option (Except Fault Descriptor) × Cursor :=
  if cursor.isDone ∨ cursor.table.count ≤ cursor.next then (none, cursor)
  else
    let item := cursor.table.get cursor.next
    (some item, ⟨cursor.table, cursor.next + 1, item matches .error _⟩)

/-- The least and the greatest number of items that may still come. -/
def remaining (cursor : Cursor) : Nat × Nat :=
  (0, if cursor.isDone then 0 else cursor.table.count - cursor.next)

end Cursor

end DescriptorTable

end Unstrip
