import Unstrip.Release
import Unstrip.Text.Hex
import Unstrip.Text.Utf8

/-!
# Faults

Reading a table fails in one of four ways: there is no table, a read runs past the end of the
image, the bytes contradict themselves, or the table belongs to a release that is not supported.
A contradiction names its `Cause`; the wording of both stands here and nowhere else.
-/

namespace Unstrip

/-- What makes the bytes of a table contradictory. -/
inductive Cause where
  /-- A relative offset leads beyond the last representable position. -/
  | offsetOverflow (base relative : Nat)
  /-- A read would end beyond the last representable position. -/
  | readOverflow (offset length : Nat)
  /-- A word is neither four nor eight bytes wide. -/
  | wordWidth (width : Nat)
  /-- No zero byte ends the string within the cap. -/
  | unterminated (offset cap : Nat)
  /-- The header does not open with the magic number of the expected release. -/
  | wrongMagic (magic offset : Nat) (expected : Release)
  /-- The two bytes after the magic number are not zero. -/
  | padding (value : Nat)
  /-- A pointer is neither four nor eight bytes wide. -/
  | pointerWidth (width : Nat)
  /-- A header field points outside the image. -/
  | outside (field : Field) (offset anchor : Nat)
  /-- The image is too small for this many function records. -/
  | tooManyFunctions (count : Nat)
  /-- There is no record with this index. -/
  | noRecord (index count : Nat)
  /-- The distance of a record from the first one is not representable. -/
  | recordOverflow
  /-- The start of the code and a relative address add up to more than 64 bits. -/
  | addressOverflow (entry textStart : Nat)
  /-- A function name is not UTF-8. -/
  | badName (offset : Nat) (fault : Utf8.Fault)
  /-- No worker has delivered the symbol with this index. -/
  | unresolved (index : Nat)
  /-- A reason given in words. -/
  | stated (reason : String)
  deriving DecidableEq, Repr

def Cause.message : Cause → String
  | .offsetOverflow base relative => s!"offset 0x{hex base} + 0x{hex relative} overflows"
  | .readOverflow offset length => s!"read of {length} bytes at 0x{hex offset} overflows"
  | .wordWidth width => s!"unsupported field width {width}"
  | .unterminated offset cap => s!"string at 0x{hex offset} is not terminated within {cap} bytes"
  | .wrongMagic magic offset expected =>
    s!"magic 0x{hexPadded 8 magic} at 0x{hex offset} does not match {expected.title}"
  | .padding value => s!"non-zero header pad 0x{hexPadded 4 value}"
  | .pointerWidth width => s!"invalid pointer width {width}"
  | .outside field offset anchor =>
    s!"{field.label} offset 0x{hex offset} from anchor 0x{hex anchor} lies outside the buffer"
  | .tooManyFunctions count => s!"nfunc {count} implies a function table larger than the buffer"
  | .noRecord index count => s!"descriptor index {index} outside table of {count}"
  | .recordOverflow => "descriptor offset overflows"
  | .addressOverflow entry textStart =>
    s!"entry 0x{hex entry} overflows text start 0x{hex textStart}"
  | .badName offset fault => s!"function name at 0x{hex offset} is not UTF-8: {fault.message}"
  | .unresolved index => s!"function {index} was never resolved"
  | .stated reason => reason

/-- Why a table cannot be read. -/
inductive Fault where
  /-- Nothing in the image looks like a table. -/
  | notFound
  /-- A read of `length` bytes at `offset` does not fit in the `available` bytes of the image. -/
  | truncated (offset length available : Nat)
  /-- The bytes contradict themselves. -/
  | corrupt (cause : Cause)
  /-- The table opens with a magic number that is known but not supported. -/
  | unsupported (magic : Nat)
  deriving DecidableEq, Repr

def Fault.message : Fault → String
  | .notFound => "No Go symbol table signature found in buffer"
  | .truncated offset length available =>
    s!"Read of {length} bytes at offset 0x{hex offset} exceeds buffer length 0x{hex available}"
  | .corrupt cause => s!"Corrupt symbol table: {cause.message}"
  | .unsupported magic => s!"Unsupported symbol table version (magic 0x{hexPadded 8 magic})"

end Unstrip
