import Unstrip.Container.Basic

/-!
# Mach-O files

A Mach-O file of either width and byte order: its header is followed by load commands, of which
those that describe segments hold the section headers.
-/

namespace Unstrip.Container.MachO

structure Shape where
  is64 : Bool
  order : ByteOrder
  deriving DecidableEq, Repr

namespace Shape

variable (shape : Shape)

def headerSize : Nat := if shape.is64 then 32 else 28

/-- The number of the load command that describes a segment. -/
def segmentCommand : Nat := if shape.is64 then 0x19 else 0x1

/-- The size of such a command without its sections. -/
def segmentSize : Nat := if shape.is64 then 72 else 56

def sectionSize : Nat := if shape.is64 then 80 else 68

def symbolSize : Nat := if shape.is64 then 16 else 12

/-- The size of an address, which is also the boundary of a segment command. -/
def wordSize : Nat := if shape.is64 then 8 else 4

def field (file : Image) (base offset64 offset32 width : Nat) : Nat :=
  shape.order.number file (base + if shape.is64 then offset64 else offset32) width

end Shape

/-- The number of the load command that describes the symbol table. -/
def symbolCommand : Nat := 0x2

def symbolCommandSize : Nat := 24

/-- The boundary of the symbol table, for either width. -/
def symbolBoundary : Nat := 4

/-- A load command: its number, and the range of the file that it occupies. -/
structure Command where
  kind : Nat
  range : Range

/-- The load commands from `offset` on, at most `count` of them. They end where the next one does
not lie inside the area that ends at `stop`. -/
def commandsFrom (file : Image) (shape : Shape) (stop : Nat) : (count offset : Nat) → List Command
  | 0, _ => []
  | count + 1, offset =>
    if offset + 8 ≤ stop ∧ offset % 4 = 0 then
      let kind := shape.order.number file offset 4
      let size := shape.order.number file (offset + 4) 4
      if 8 ≤ size ∧ offset + size ≤ stop then
        ⟨kind, ⟨offset, size⟩⟩ :: commandsFrom file shape stop count (offset + size)
      else []
    else []

/-- The section whose header is at `base`. Zero-filled sections occupy no bytes of the file. -/
def sectionAt (file : Image) (shape : Shape) (base : Nat) : Section :=
  let kind := shape.field file base 64 56 4 % 256
  { name? := some (fixedName file base 16)
    range? :=
      if kind = 0x1 ∨ kind = 0xc ∨ kind = 0x12 then none
      else some
        ⟨shape.field file base 48 40 4, shape.order.number file (base + if shape.is64 then 40 else 36)
          shape.wordSize⟩ }

def sectionsOf (file : Image) (shape : Shape) (command : Command) :
    Except Refusal (List Section) := do
  let base := command.range.offset
  let size := command.range.size
  if command.kind = shape.segmentCommand then
    require (shape.segmentSize ≤ size ∧ base % shape.wordSize = 0) .machCommand
    let count := shape.field file base 64 48 4
    require (shape.segmentSize + count * shape.sectionSize ≤ size) .machSections
    return (List.range count).map fun i =>
      sectionAt file shape (base + shape.segmentSize + i * shape.sectionSize)
  else if command.kind = symbolCommand then
    require (symbolCommandSize ≤ size) .machCommand
    let symbolsAt := shape.order.number file (base + 8) 4
    let symbols := shape.order.number file (base + 12) 4
    require (fits file symbolsAt (symbols * shape.symbolSize) symbolBoundary) .machSymbols
    return []
  else return []

def parse (file : Image) (shape : Shape) : Except Refusal Container := do
  require (fits file 0 shape.headerSize 1) .machHeader
  let count := shape.order.number file 16 4
  let stop := shape.headerSize + shape.order.number file 20 4
  let commands :=
    if stop ≤ file.size then commandsFrom file shape stop count shape.headerSize else []
  let sections ← commands.mapM (sectionsOf file shape)
  return ⟨sections.flatten, .underscored⟩

end Unstrip.Container.MachO
