import Unstrip.Header
import Unstrip.Stage
import Unstrip.Symbol.Table

/-!
# Events

An extraction tells what it does in a log of events. `Logged` is a value together with the events
that led to it; running one computation after another joins their logs in that order.
-/

namespace Unstrip

/-- How much an event matters. -/
inductive Level where
  | debug
  | info
  | warn
  deriving DecidableEq, Repr

/-- Something that happens in an extraction. -/
inductive Event where
  /-- A supported signature has been found. -/
  | signatureFound (anchor : Anchor)
  /-- The header of a release that is not supported has been found. -/
  | foreignHeader (magic : Nat)
  /-- The next stage is reached. -/
  | stageReached (before after : Stage)
  /-- A header has been decoded. -/
  | headerDecoded (header : Header)
  /-- Several workers resolve the records. -/
  | poolStarted (count workers : Nat)
  /-- A metadata record disagrees with its descriptor. -/
  | addressMismatch (name : String) (address metadataAddress : Nat)
  /-- All symbols have been recovered. -/
  | recovered (count : Nat) (release : Release)
  /-- The symbols before a failure are kept. -/
  | partKept (kept count : Nat) (fault : Fault)
  deriving DecidableEq, Repr

namespace Event

def level : Event → Level
  | signatureFound .. | foreignHeader .. | stageReached .. | headerDecoded .. | poolStarted .. =>
    .debug
  | recovered .. => .info
  | addressMismatch .. | partKept .. => .warn

def message : Event → String
  | signatureFound anchor =>
    s!"Found {anchor.release.title} table signature at 0x{hex anchor.offset}"
  | foreignHeader magic =>
    s!"Found Go-style header with unsupported magic 0x{hexPadded 8 magic}"
  | stageReached before after => s!"Parse stage: {before.title} -> {after.title}"
  | headerDecoded header =>
    let opening := s!"{header.release.title} header at 0x{hex header.anchor}: "
    let widths := s!"ptrsize={header.pointerWidth} quantum={header.quantum} "
    let counts := s!"nfunc={header.functionCount} nfiles={header.fileCount}"
    opening ++ widths ++ counts
  | poolStarted count workers => s!"Resolving {count} functions on {workers} threads"
  | addressMismatch name address metadataAddress =>
    let stored := s!"descriptor 0x{hex address}, metadata 0x{hex metadataAddress}"
    s!"Address mismatch for {name}: {stored}"
  | recovered count release => s!"Recovered {count} function symbols ({release.title})"
  | partKept kept count fault =>
    s!"Keeping {kept} of {count} symbols after failure: {fault.message}"

/-- What is told about a symbol once it is resolved. -/
def ofSymbol? (symbol : Symbol) : Option Event :=
  symbol.metadataAddress.map (addressMismatch symbol.name symbol.address ·)

end Event

/-- A value and the events that led to it. -/
structure Logged (α : Type) where
  value : α
  log : List Event

namespace Logged

instance : Monad Logged where
  pure value := ⟨value, []⟩
  bind step next :=
    let result := next step.value
    ⟨result.value, step.log ++ result.log⟩

def tell (event : Event) : Logged Unit := ⟨(), [event]⟩

/-- A step that may fail, of which nothing is told. -/
def silently {ε α : Type} (step : Except ε α) : ExceptT ε Logged α := ExceptT.mk (pure step)

@[simp] theorem value_pure {α : Type} (a : α) : (pure a : Logged α).value = a := rfl

@[simp] theorem log_pure {α : Type} (a : α) : (pure a : Logged α).log = [] := rfl

@[simp] theorem value_bind {α β : Type} (step : Logged α) (next : α → Logged β) :
    (step >>= next).value = (next step.value).value := rfl

@[simp] theorem log_bind {α β : Type} (step : Logged α) (next : α → Logged β) :
    (step >>= next).log = step.log ++ (next step.value).log := rfl

@[simp] theorem value_tell (event : Event) : (tell event).value = () := rfl

@[simp] theorem log_tell (event : Event) : (tell event).log = [event] := rfl

end Logged

end Unstrip
