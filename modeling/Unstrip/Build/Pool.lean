import Unstrip.Records

/-!
# A pool of workers

Several workers may resolve the records of one table. The indices are cut into chunks that wait
in a queue. An idle worker takes a chunk that waits, resolves its records one by one, and sends
each result with its index. Chunks are taken, and results arrive, in no particular order; a result
that arrives is written to the slot of its index.

`State.step` is one move of one participant, and a schedule is any list of moves: a move that is
not possible changes nothing. So a run is determined by its schedule, and what holds for every
schedule holds for every interleaving of the workers.
-/

namespace Unstrip.Pool

/-- The number of records in a full chunk. -/
def chunkSize : Nat := 512

/-- The indices from `start` up to but not including `stop`. -/
structure Chunk where
  start : Nat
  stop : Nat
  deriving DecidableEq, Repr

namespace Chunk

/-- Whether no index is left. -/
def isEmpty (chunk : Chunk) : Bool := chunk.stop ≤ chunk.start

def size (chunk : Chunk) : Nat := chunk.stop - chunk.start

theorem isEmpty_iff {chunk : Chunk} : chunk.isEmpty = true ↔ chunk.stop ≤ chunk.start := decide_eq_true_iff

end Chunk

def chunkCount (count : Nat) : Nat := (count + chunkSize - 1) / chunkSize

/-- The indices below `count`, cut into chunks of which only the last may be short. -/
def chunks (count : Nat) : List Chunk :=
  (List.range (chunkCount count)).map fun k =>
    ⟨k * chunkSize, min (k * chunkSize + chunkSize) count⟩

/-- What one record came to. -/
abbrev Result := Except Fault Symbol

structure State where
  /-- The chunks that no worker has taken yet. -/
  queue : List Chunk
  /-- What is left of each worker's chunk; an idle worker has an empty one. -/
  workers : Array Chunk
  /-- The results that have been sent and have not arrived. -/
  inFlight : List (Nat × Result)
  /-- The results that have arrived, by index. -/
  slots : Array (Option Result)
  /-- What the workers have told, in the order of their moves. -/
  log : Array Event

/-- A move of one participant. -/
inductive Action where
  /-- A worker takes the chunk at the given place in the queue. -/
  | take (worker place : Nat)
  /-- A worker resolves the next record of its chunk and sends the result. -/
  | resolve (worker : Nat)
  /-- The result at the given place among those in flight arrives. -/
  | deliver (place : Nat)
  deriving DecidableEq, Repr

namespace State

/-- A pool that has not begun: all chunks wait, all workers are idle, all slots are empty. -/
def initial (count workers : Nat) : State where
  queue := chunks count
  workers := Array.replicate workers ⟨0, 0⟩
  inFlight := []
  slots := Array.replicate count none
  log := #[]

section
variable (count workers : Nat)

@[simp] theorem queue_initial : (initial count workers).queue = chunks count := rfl

@[simp] theorem workers_initial : (initial count workers).workers = Array.replicate workers ⟨0, 0⟩ := rfl

@[simp] theorem inFlight_initial : (initial count workers).inFlight = [] := rfl

@[simp] theorem slots_initial : (initial count workers).slots = Array.replicate count none := rfl

end

def eventsOf : Result → Array Event
  | .ok symbol => (Event.ofSymbol? symbol).toArray
  | .error _ => #[]

def step (resolve : Nat → Result) (state : State) : Action → State
  | .take worker place =>
    match state.workers[worker]?, state.queue[place]? with
    | some current, some chunk =>
      if current.isEmpty then
        { state with
          queue := state.queue.eraseIdx place
          workers := state.workers.setIfInBounds worker chunk }
      else state
    | _, _ => state
  | .resolve worker =>
    match state.workers[worker]? with
    | some current =>
      if current.isEmpty then state
      else
        let result := resolve current.start
        { state with
          workers := state.workers.setIfInBounds worker ⟨current.start + 1, current.stop⟩
          inFlight := state.inFlight ++ [(current.start, result)]
          log := state.log ++ eventsOf result }
    | none => state
  | .deliver place =>
    match state.inFlight[place]? with
    | some (index, result) =>
      { state with
        inFlight := state.inFlight.eraseIdx place
        slots := state.slots.setIfInBounds index (some result) }
    | none => state

def run (resolve : Nat → Result) (state : State) (schedule : List Action) : State :=
  schedule.foldl (step resolve) state

section
variable (resolve : Nat → Result) (state : State)

@[simp] theorem run_nil : state.run resolve [] = state := rfl

@[simp] theorem run_cons (action : Action) (rest : List Action) :
    state.run resolve (action :: rest) = (state.step resolve action).run resolve rest := rfl

@[simp] theorem run_append (first second : List Action) :
    state.run resolve (first ++ second) = (state.run resolve first).run resolve second :=
  List.foldl_append

end

/-- Whether no move is left: no chunk waits, all workers are idle, no result is in flight. -/
def isFinished (state : State) : Bool :=
  state.queue.isEmpty && state.workers.all Chunk.isEmpty && state.inFlight.isEmpty

@[simp] theorem isFinished_iff {state : State} :
    state.isFinished = true ↔
      state.queue = [] ∧ (∀ current ∈ state.workers, current.isEmpty = true) ∧ state.inFlight = [] := by
  simp only [isFinished, Bool.and_eq_true, List.isEmpty_iff, Array.all_eq_true_iff_forall_mem, and_assoc]

/-- The result that has arrived for an index; one that is missing counts as a failure. -/
def resultAt (state : State) (index : Nat) : Result :=
  match state.slots[index]? with
  | some (some result) => result
  | _ => .error (.corrupt (.unresolved index))

end State

/-- A schedule in which the workers take turns: the next worker takes the first chunk of the queue,
and each of its results arrives before the next record is resolved. -/
def turns (workers : Nat) (chunks : List Chunk) : List Action :=
  chunks.zipIdx.flatMap fun (chunk, k) =>
    let worker := k % workers
    .take worker 0 ::
      (List.replicate chunk.size [Action.resolve worker, Action.deliver 0]).flatten

/-- The state in which a pool of workers that take turns ends. -/
def finalState (resolve : Nat → Result) (count workers : Nat) : State :=
  (State.initial count workers).run resolve (turns workers (chunks count))

end Unstrip.Pool
