import Unstrip.Proofs.Machine.Records

/-!
# Pools with words

The moves of a pool of workers, with the operations of the machine: a worker that has resolved a record
counts on to the next one, and a result that arrives is stored in the slot of its index. That both stay
in bounds follows from the books of the pool (`Pool.State.Accounts`): every index that waits or travels
is one of the table. So no schedule traps (`moves_eq_ok`).
-/

namespace Unstrip.Machine

def put {α : Type} (items : Array α) (index : Nat) (a : α) : Except Stop (Array α) :=
  if index < items.size then .ok (items.setIfInBounds index a) else .error (.trap .outOfRange)

def chunks (count : Nat) : Except Stop (List Pool.Chunk) :=
  (List.range (Pool.chunkCount count)).mapM fun k => do
    let stop ← add (k * Pool.chunkSize) Pool.chunkSize
    return ⟨k * Pool.chunkSize, min stop count⟩

def move (resolve : Nat → Except Stop Symbol) (state : Pool.State) :
    Pool.Action → Except Stop Pool.State
  | .take worker place =>
    match state.workers[worker]?, state.queue[place]? with
    | some current, some chunk =>
      if current.isEmpty then
        return { state with
          queue := state.queue.eraseIdx place
          workers := state.workers.setIfInBounds worker chunk }
      else return state
    | _, _ => return state
  | .resolve worker =>
    match state.workers[worker]? with
    | some current =>
      if current.isEmpty then return state
      else do
        let next ← add current.start 1
        let result ← attempt (resolve current.start)
        return { state with
          workers := state.workers.setIfInBounds worker ⟨next, current.stop⟩
          inFlight := state.inFlight ++ [(current.start, result)]
          log := state.log ++ Pool.State.eventsOf result }
    | none => return state
  | .deliver place =>
    match state.inFlight[place]? with
    | some (index, result) => do
      let slots ← put state.slots index (some result)
      return { state with inFlight := state.inFlight.eraseIdx place, slots := slots }
    | none => return state

def moves (resolve : Nat → Except Stop Symbol) :
    Pool.State → List Pool.Action → Except Stop Pool.State
  | state, [] => return state
  | state, action :: rest => do moves resolve (← move resolve state action) rest

theorem chunks_eq_ok {count : Nat} (hcount : count + Pool.chunkSize < wordLimit) :
    chunks count = .ok (Pool.chunks count) := by
  refine mapM_eq_ok fun k hk => ?_
  have hstart : k * Pool.chunkSize < count := by
    have := List.mem_range.1 hk
    simp only [Pool.chunkCount, Pool.chunkSize] at this ⊢
    omega
  rw [add_eq_ok (by omega)]
  rfl

section
variable {resolve : Nat → Except Stop Symbol} {results : Nat → Pool.Result} {count : Nat}
  {sent delivered : List (Nat × Pool.Result)} {state : Pool.State}

/-- The index that a worker resolves next is one of the table. -/
theorem start_lt_of_accounts (h : Pool.State.Accounts results count sent delivered state) {worker : Nat}
    {current : Pool.Chunk} (hworker : state.workers[worker]? = some current)
    (hbusy : ¬ current.isEmpty = true) : current.start < count := by
  have hwaits : current.start ∈ state.waiting := by
    refine List.mem_append_right _ (List.mem_flatMap.2 ⟨current, ?_, ?_⟩)
    · exact Array.mem_toList_iff.2 (Array.mem_of_getElem? hworker)
    · rw [Pool.Chunk.indices_of_not_isEmpty hbusy]
      exact List.mem_cons_self
  exact List.mem_range.1 (h.pending.subset (List.mem_append_right _ hwaits))

/-- The index of a result that arrives has a slot. -/
theorem lt_size_of_accounts (h : Pool.State.Accounts results count sent delivered state) {place : Nat}
    {message : Nat × Pool.Result} (hmessage : state.inFlight[place]? = some message) :
    message.1 < state.slots.size := by
  have hsent : message ∈ sent :=
    h.travelling.subset (List.mem_append_right _ (List.mem_of_getElem? hmessage))
  have hindex : message.1 < count :=
    List.mem_range.1 (h.pending.subset (List.mem_append_left _ (List.mem_map_of_mem hsent)))
  obtain ⟨hlt, -⟩ := Array.getElem?_eq_some_iff.1 (h.slots message.1 hindex)
  exact hlt

/-- **The step lemma**: in a pool whose books balance, no move traps. -/
theorem move_eq_ok (hcount : count < wordLimit) (hresolve : ∀ i, ComesTo (resolve i) (results i))
    (h : Pool.State.Accounts results count sent delivered state) (action : Pool.Action) :
    move resolve state action = .ok (state.step results action) := by
  cases action with
  | take worker place =>
    -- no unchecked operation
    simp only [move, Pool.State.step]
    cases state.workers[worker]? with
    | none => rfl
    | some current =>
      cases state.queue[place]? with
      | none => rfl
      | some chunk =>
        by_cases hidle : current.isEmpty = true
        · simp only [hidle, if_true]
          rfl
        · simp only [hidle, Bool.false_eq_true, if_false]
          rfl
  | resolve worker =>
    simp only [move, Pool.State.step]
    cases hworker : state.workers[worker]? with
    | none => rfl
    | some current =>
      by_cases hidle : current.isEmpty = true
      · simp only [hidle, if_true]
        rfl
      · have hstart := start_lt_of_accounts h hworker hidle
        have hnext : add current.start 1 = .ok (current.start + 1) := add_eq_ok (by omega)
        simp only [hidle, Bool.false_eq_true, if_false, hnext, (hresolve current.start).attempt]
        rfl
  | deliver place =>
    simp only [move, Pool.State.step]
    cases hmessage : state.inFlight[place]? with
    | none => rfl
    | some message =>
      simp only [put, lt_size_of_accounts h hmessage, if_true]
      rfl

/-- **The run lemma**: no schedule makes a pool trap. -/
theorem moves_eq_ok (hcount : count < wordLimit) (hresolve : ∀ i, ComesTo (resolve i) (results i))
    (h : Pool.State.Accounts results count sent delivered state) (schedule : List Pool.Action) :
    moves resolve state schedule = .ok (state.run results schedule) := by
  induction schedule generalizing sent delivered state with
  | nil => rfl
  | cons action rest ih =>
    rw [moves, move_eq_ok hcount hresolve h action]
    exact ih (Pool.State.accounts_step results h action)

end

end Unstrip.Machine
