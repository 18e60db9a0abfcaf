/-!
# Options of an extraction
-/

namespace Unstrip

/-- What a caller may choose about an extraction. -/
structure Options where
  /-- The greatest number of bytes in a name; a longer one makes the table corrupt. -/
  nameCap : Nat := 4096
  /-- Whether the symbols before a failure are kept. -/
  allowPartial : Bool := false
  /-- How many workers resolve records. One works inline, and zero stands for one per core. -/
  workers : Nat := 1
  deriving DecidableEq, Repr

def Options.workerCount (options : Options) (cores : Nat) : Nat :=
  if options.workers = 0 then max cores 1 else options.workers

end Unstrip
