/-!
# Sinks

A `Sink` takes bytes until its room is used up. A piece that does not fit is taken as far as there
is room, and then the writing fails.
-/

namespace Unstrip

/-- A place that bytes are written to. -/
structure Sink where
  /-- How many bytes may still be written; `none` if there is no limit. -/
  room : Option Nat
  /-- The bytes written so far. -/
  taken : Array UInt8
  deriving DecidableEq, Repr

namespace Sink

def empty (room : Option Nat) : Sink := ⟨room, #[]⟩

/-- Writes bytes, and says whether all of them have been taken. -/
def write (sink : Sink) (bytes : Array UInt8) : Sink × Bool :=
  match sink.room with
  | none => (⟨none, sink.taken ++ bytes⟩, true)
  | some room =>
    if bytes.size ≤ room then (⟨some (room - bytes.size), sink.taken ++ bytes⟩, true)
    else (⟨some 0, sink.taken ++ bytes.extract 0 room⟩, false)

/-- Writes pieces one after the other. Each comes with the failure that it means if it does not
fit; the first such failure ends the writing. -/
def writeAll {ε : Type} (sink : Sink) : List (ε × String) → Sink × Option ε
  | [] => (sink, none)
  | (failure, piece) :: pieces =>
    match sink.write piece.toUTF8.data with
    | (sink, true) => writeAll sink pieces
    | (sink, false) => (sink, some failure)

end Sink

end Unstrip
