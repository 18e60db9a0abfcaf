import Unstrip.Container.Coff
import Unstrip.Container.Elf
import Unstrip.Container.MachO

/-!
# Reading object files

The first bytes of a file show its format. `Container.parse` reads the sections of a file, and
`Container.section?` looks one of them up.
-/

namespace Unstrip.Container

inductive Format where
  | elf (is64 : Bool)
  | executable (is64 : Bool)
  | object
  | bigObject
  | machO (shape : MachO.Shape)
  deriving DecidableEq, Repr

/-- The format of a file that opens as an MS-DOS program. -/
def executableFormat (file : Image) : Except Refusal Format :=
  match Coff.optionalMagic? file with
  | some 0x10b => .ok (.executable false)
  | some 0x20b => .ok (.executable true)
  | _ => .error .unknownProgram

/-- The format of a file that opens as an anonymous object. -/
def anonymousFormat (file : Image) : Except Refusal Format :=
  if 32 ≤ file.size ∧ file.slice 12 16 = Coff.bigObjectClass then .ok .bigObject
  else .error .unknownObject

/-- The format of a file, by its first bytes. -/
def formatOf (file : Image) : Except Refusal Format :=
  if file.size < 16 then .error .noMagic
  else
    match file.slice 0 8 with
    | 0x7f :: 0x45 :: 0x4c :: 0x46 :: 1 :: _ => .ok (.elf false)
    | 0x7f :: 0x45 :: 0x4c :: 0x46 :: 2 :: _ => .ok (.elf true)
    | 0xfe :: 0xed :: 0xfa :: 0xce :: _ => .ok (.machO ⟨false, .highestFirst⟩)
    | 0xce :: 0xfa :: 0xed :: 0xfe :: _ => .ok (.machO ⟨false, .lowestFirst⟩)
    | 0xfe :: 0xed :: 0xfa :: 0xcf :: _ => .ok (.machO ⟨true, .highestFirst⟩)
    | 0xcf :: 0xfa :: 0xed :: 0xfe :: _ => .ok (.machO ⟨true, .lowestFirst⟩)
    | 0xca :: 0xfe :: 0xba :: 0xbe :: _ | 0xca :: 0xfe :: 0xba :: 0xbf :: _ =>
      .error .unsupportedFormat
    | [0x64, 0x79, 0x6c, 0x64, 0x5f, 0x76, 0x31, 0x20] => .error .unsupportedFormat
    | 0x4d :: 0x5a :: _ => executableFormat file
    | 0xc4 :: 0x01 :: _ | 0x64 :: 0xaa :: _ | 0x41 :: 0xa6 :: _ | 0x4c :: 0x01 :: _
    | 0x64 :: 0x86 :: _ => .ok .object
    | 0x00 :: 0x00 :: 0xff :: 0xff :: 0x00 :: 0x00 :: _ => .error .unsupportedFormat
    | 0x00 :: 0x00 :: 0xff :: 0xff :: 0x02 :: 0x00 :: _ => anonymousFormat file
    | _ => .error .unknownMagic

def parse (file : Image) : Except Refusal Container := do
  match ← formatOf file with
  | .elf is64 => Elf.parse file is64
  | .executable is64 => Coff.parseExecutable file is64
  | .object => Coff.parseObject file
  | .bigObject => Coff.parseBigObject file
  | .machO shape => MachO.parse file shape

/-- The rest of `name` behind `front`, if it begins with that. -/
def behind? (front name : List UInt8) : Option (List UInt8) :=
  if front.isPrefixOf name then some (name.drop front.length) else none

def ascii (text : String) : List UInt8 := text.toUTF8.toList

/-- Whether `name` is the name `wanted` with `front` replaced by `replacement`, cut to the 16 bytes
that fit in a section header. -/
def isReplaced (front replacement wanted name : List UInt8) : Bool :=
  match behind? front wanted with
  | some rest => name == replacement ++ rest.take (16 - replacement.length)
  | none => false

/-- Whether a section of this name is the one that is wanted. -/
def Naming.accepts (naming : Naming) (wanted name : List UInt8) : Bool :=
  match naming with
  | .exact => name == wanted
  | .underscored =>
    name == wanted || isReplaced (ascii ".") (ascii "__") wanted name ||
      isReplaced (ascii ".debug_") (ascii "__zdebug_") wanted name

def section? (container : Container) (name : String) : Option Section :=
  container.sections.find? fun item =>
    match item.name? with
    | some bytes => container.naming.accepts name.toUTF8.toList bytes
    | none => false

end Unstrip.Container
