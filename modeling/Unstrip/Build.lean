import Unstrip.Build.Pool

/-!
# Building a symbol table

All records of a table are resolved in order up to the first that fails. One worker does this
inline; several do it as a pool, whose slots are then read in order, so that the outcome does not
depend on who resolved what and when.
-/

namespace Unstrip

/-- A build that a record stopped. -/
structure InterruptedBuild where
  /-- What is wrong with the first bad record. -/
  fault : Fault
  /-- The symbols of the records before it. -/
  symbols : Array Symbol
  deriving DecidableEq, Repr

namespace Records

/-- All symbols, or the fault of the first bad record with the symbols before it. -/
def outcome : Array Symbol × Option Fault → Except InterruptedBuild (Array Symbol)
  | (symbols, none) => .ok symbols
  | (symbols, some fault) => .error ⟨fault, symbols⟩

/-- Resolves `count` records from `start` on, one after the other, until one is bad. -/
def tellFrom (records : Records) :
    (count start : Nat) → (done : Array Symbol) → Logged (Except InterruptedBuild (Array Symbol))
  | 0, _, done => return .ok done
  | count + 1, start, done => do
    match ← (records.tellSymbolAt start).run with
    | .ok symbol => tellFrom records count (start + 1) (done.push symbol)
    | .error fault => return .error ⟨fault, done⟩

/-- Resolves the records one after the other, and tells of each at once. -/
def buildInline (records : Records) : Logged (Except InterruptedBuild (Array Symbol)) :=
  records.tellFrom records.count 0 #[]

/-- What the slots of a pool come to, read in order. -/
def poolOutcome (records : Records) (state : Pool.State) : Except InterruptedBuild (Array Symbol) :=
  outcome (collectFrom state.resultAt records.count 0 #[])

def buildPooled (records : Records) (workers : Nat) :
    Logged (Except InterruptedBuild (Array Symbol)) :=
  let state := Pool.finalState records.symbolAt records.count workers
  ⟨records.poolOutcome state, state.log.toList⟩

/-- Resolves all records. No more workers are started than there are chunks. -/
def build (records : Records) (workers : Nat) : Logged (Except InterruptedBuild SymbolTable) := do
  let workers := min workers (Pool.chunkCount records.count)
  if 1 < workers then
    Logged.tell (.poolStarted records.count workers)
    let built ← records.buildPooled workers
    return built.map SymbolTable.ofArray
  else
    let built ← records.buildInline
    return built.map SymbolTable.ofArray

end Records

/-- Builds the symbol table that a header describes, on a machine with the given number of
cores. -/
def buildTable (image : Image) (header : Header) (options : Options) (cores : Nat) :
    Logged (Except InterruptedBuild SymbolTable) :=
  (Records.ofHeader image header options.nameCap).build (options.workerCount cores)

end Unstrip
