import Mathlib.Data.List.Perm.Basic
import Unstrip.Build

/-!
# Every schedule of a worker pool gives the same slots

The pool is a message-passing system: chunks wait in a queue, workers send one message for each
record, and a message that arrives fills one slot. `Accounts` is the invariant that carries every
result here. It balances two books over a run: the indices that have been sent and those that are
still waiting are together exactly the indices of the table, and the messages that have arrived and
those in flight are together exactly the messages that have been sent.

Main results: whatever the schedule, a run that has come to its end has delivered exactly one
message for each index (`finished_delivered`), and any run can be brought to its end
(`exists_finished`), for instance by the workers taking turns (`finalState_isFinished`).
-/

namespace Unstrip.Pool

def Chunk.indices (chunk : Chunk) : List Nat := List.range' chunk.start chunk.size

theorem Chunk.indices_of_isEmpty {chunk : Chunk} (h : chunk.isEmpty = true) : chunk.indices = [] := by
  rw [Chunk.isEmpty_iff] at h
  have hs : chunk.size = 0 := by unfold Chunk.size; omega
  simp [Chunk.indices, hs]

theorem Chunk.indices_of_not_isEmpty {chunk : Chunk} (h : ¬ chunk.isEmpty = true) :
    chunk.indices = chunk.start :: (⟨chunk.start + 1, chunk.stop⟩ : Chunk).indices := by
  rw [Chunk.isEmpty_iff] at h
  have hs : chunk.size = (⟨chunk.start + 1, chunk.stop⟩ : Chunk).size + 1 := by
    simp only [Chunk.size]; omega
  rw [Chunk.indices, hs, List.range'_succ]
  rfl

/-! ## The chunks partition the indices -/

theorem indices_chunks_take (count k : Nat) (hk : k ≤ chunkCount count) :
    ((List.range k).flatMap fun j =>
      (⟨j * chunkSize, min (j * chunkSize + chunkSize) count⟩ : Chunk).indices) =
      List.range (min (k * chunkSize) count) := by
  induction k with
  | zero => simp
  | succ k ih =>
    have hlt : k * chunkSize < count := by
      simp only [chunkCount, chunkSize] at hk ⊢; omega
    rw [List.range_succ, List.flatMap_append, ih (by omega)]
    simp only [List.flatMap_cons, List.flatMap_nil, List.append_nil, Chunk.indices, Chunk.size]
    rw [List.range_eq_range', List.range_eq_range', Nat.min_eq_left (by omega : k * chunkSize ≤ count)]
    have hend : min ((k + 1) * chunkSize) count =
        k * chunkSize + (min (k * chunkSize + chunkSize) count - k * chunkSize) := by
      rw [Nat.succ_mul]; omega
    rw [hend, ← List.range'_append_1, Nat.zero_add]

/-- **The chunks partition the indices**: put one after the other they are all of them, in order. -/
theorem flatMap_indices_chunks (count : Nat) :
    (chunks count).flatMap Chunk.indices = List.range count := by
  rw [chunks, List.flatMap_map, indices_chunks_take count _ (Nat.le_refl _)]
  have : count ≤ chunkCount count * chunkSize := by
    simp only [chunkCount, chunkSize]; omega
  rw [Nat.min_eq_right this]

namespace State

variable (resolve : Nat → Result)

/-! ## What a run sends and delivers -/

/-- The indices that nobody has resolved: those of chunks in the queue, and those that are left to
a worker. -/
def waiting (state : State) : List Nat :=
  state.queue.flatMap Chunk.indices ++ state.workers.toList.flatMap Chunk.indices

def sentBy (state : State) : Action → List (Nat × Result)
  | .resolve worker =>
    match state.workers[worker]? with
    | some current => if current.isEmpty then [] else [(current.start, resolve current.start)]
    | none => []
  | .take .. | .deliver _ => []

def deliveredBy (state : State) : Action → List (Nat × Result)
  | .deliver place => state.inFlight[place]?.toList
  | .take .. | .resolve _ => []

/-- The messages that are sent in the course of a schedule, in order. -/
@[simp] def sent : State → List Action → List (Nat × Result)
  | _, [] => []
  | state, action :: rest =>
    state.sentBy resolve action ++ sent (state.step resolve action) rest

/-- The messages that are written to their slots in the course of a schedule, in order. -/
@[simp] def delivered : State → List Action → List (Nat × Result)
  | _, [] => []
  | state, action :: rest =>
    state.deliveredBy action ++ delivered (state.step resolve action) rest

/-- All that a move can do. -/
inductive Moves (state : State) : Action → State → Prop
  | take {worker place : Nat} {current chunk : Chunk} :
    state.workers[worker]? = some current → current.isEmpty = true →
    state.queue[place]? = some chunk →
    Moves state (.take worker place)
      { state with
        queue := state.queue.eraseIdx place
        workers := state.workers.setIfInBounds worker chunk }
  | resolve {worker : Nat} {current : Chunk} :
    state.workers[worker]? = some current → ¬ current.isEmpty = true →
    state.sentBy resolve (.resolve worker) = [(current.start, resolve current.start)] →
    Moves state (.resolve worker)
      { state with
        workers := state.workers.setIfInBounds worker ⟨current.start + 1, current.stop⟩
        inFlight := state.inFlight ++ [(current.start, resolve current.start)]
        log := state.log ++ eventsOf (resolve current.start) }
  | deliver {place : Nat} {message : Nat × Result} :
    state.inFlight[place]? = some message →
    Moves state (.deliver place)
      { state with
        inFlight := state.inFlight.eraseIdx place
        slots := state.slots.setIfInBounds message.1 (some message.2) }
  | impossible {action : Action} :
    state.sentBy resolve action = [] → state.deliveredBy action = [] → Moves state action state

theorem moves_step (state : State) (action : Action) :
    Moves resolve state action (state.step resolve action) := by
  cases action with
  | take worker place =>
    simp only [step]
    split
    · rename_i current chunk hw hq
      split
      · rename_i he; exact .take hw he hq
      · exact .impossible rfl rfl
    · exact .impossible rfl rfl
  | resolve worker =>
    simp only [step]
    split
    · rename_i current hw
      split
      · rename_i he; exact .impossible (by simp [sentBy, hw, he]) rfl
      · rename_i he; exact .resolve hw he (by simp [sentBy, hw, he])
    · rename_i hw; exact .impossible (by simp [sentBy, hw]) rfl
  | deliver place =>
    simp only [step]
    split
    · rename_i index result hm; exact .deliver hm
    · rename_i hm; exact .impossible rfl (by simp [deliveredBy, hm])

/-! ## The invariant of a run -/

/-- The two books of a run from the start of a pool over `count` indices: `sent` and `delivered` are
the messages so far. -/
structure Accounts (count : Nat) (sent delivered : List (Nat × Result)) (state : State) : Prop where
  pending : (sent.map (·.1) ++ state.waiting).Perm (List.range count)
  travelling : (delivered ++ state.inFlight).Perm sent
  genuine : ∀ message ∈ sent, message.2 = resolve message.1
  slots : ∀ i, i < count →
    state.slots[i]? = some (if i ∈ delivered.map (·.1) then some (resolve i) else none)

theorem accounts_initial (count workers : Nat) :
    Accounts resolve count [] [] (initial count workers) where
  pending := by
    have hidle : (Array.replicate workers (⟨0, 0⟩ : Chunk)).toList.flatMap Chunk.indices = [] := by
      simp [Chunk.indices, Chunk.size]
    simp only [List.map_nil, List.nil_append, waiting, queue_initial, workers_initial]
    rw [hidle, List.append_nil, flatMap_indices_chunks]
  travelling := by simp
  genuine := by simp
  slots := fun i hi => by simp [hi]

/-- Giving a worker another chunk trades the indices of its old chunk for those of the new one. -/
theorem flatMap_set_perm {α β : Type} (f : α → List β) (new : α) {old : α} (items : List α) (i : Nat)
    (h : items[i]? = some old) :
    (f old ++ (items.set i new).flatMap f).Perm (f new ++ items.flatMap f) := by
  obtain ⟨hi, rfl⟩ := List.getElem?_eq_some_iff.1 h
  have h1 := (List.set_perm_cons_eraseIdx hi new).flatMap_right f
  have h2 := (List.getElem_cons_eraseIdx_perm hi).flatMap_right f
  rw [List.flatMap_cons] at h1 h2
  calc (f items[i] ++ (items.set i new).flatMap f).Perm
        (f items[i] ++ (f new ++ (items.eraseIdx i).flatMap f)) := h1.append_left _
    _ |>.Perm (f new ++ (f items[i] ++ (items.eraseIdx i).flatMap f)) := by
        simp only [← List.append_assoc]
        exact List.perm_append_comm.append_right _
    _ |>.Perm (f new ++ items.flatMap f) := h2.append_left _

/-- Taking a chunk from the queue leaves the indices that wait as they are. -/
theorem waiting_take {state : State} {worker place : Nat} {current chunk : Chunk}
    (hw : state.workers[worker]? = some current) (he : current.isEmpty = true)
    (hq : state.queue[place]? = some chunk) :
    ({ state with
        queue := state.queue.eraseIdx place
        workers := state.workers.setIfInBounds worker chunk } : State).waiting.Perm state.waiting := by
  have hset := flatMap_set_perm Chunk.indices chunk state.workers.toList worker (by simpa using hw)
  rw [Chunk.indices_of_isEmpty he, List.nil_append] at hset
  obtain ⟨hlt, rfl⟩ := List.getElem?_eq_some_iff.1 hq
  have herase := (List.getElem_cons_eraseIdx_perm hlt).flatMap_right Chunk.indices
  rw [List.flatMap_cons] at herase
  simp only [waiting, Array.toList_setIfInBounds]
  refine (hset.append_left _).trans ?_
  rw [← List.append_assoc]
  exact (List.perm_append_comm.trans herase).append_right _

/-- Resolving a record takes its index from those that wait. -/
theorem waiting_resolve {state : State} {worker : Nat} {current : Chunk} (inFlight : List (Nat × Result))
    (log : Array Event) (hw : state.workers[worker]? = some current) (he : ¬ current.isEmpty = true) :
    (current.start :: ({ state with
        workers := state.workers.setIfInBounds worker ⟨current.start + 1, current.stop⟩
        inFlight := inFlight, log := log } : State).waiting).Perm state.waiting := by
  have hset := flatMap_set_perm Chunk.indices ⟨current.start + 1, current.stop⟩
    state.workers.toList worker (by simpa using hw)
  rw [Chunk.indices_of_not_isEmpty he, List.cons_append] at hset
  have hworkers := (List.perm_append_left_iff _).1 (List.perm_middle.trans hset)
  simp only [waiting, Array.toList_setIfInBounds]
  exact List.perm_middle.symm.trans (hworkers.append_left _)

/-- **The step lemma**: a move keeps both books balanced. -/
theorem accounts_step {count : Nat} {sent delivered : List (Nat × Result)} {state : State}
    (h : Accounts resolve count sent delivered state) (action : Action) :
    Accounts resolve count (sent ++ state.sentBy resolve action)
      (delivered ++ state.deliveredBy action) (state.step resolve action) := by
  have hmove := moves_step resolve state action
  generalize state.step resolve action = next at hmove
  cases hmove with
  | take hw he hq =>
    simp only [sentBy, deliveredBy, List.append_nil]
    exact ⟨((waiting_take hw he hq).append_left _).trans h.pending, h.travelling, h.genuine, h.slots⟩
  | @resolve worker current hw he hsent =>
    rw [hsent]
    simp only [deliveredBy, List.append_nil]
    refine ⟨?_, ?_, ?_, h.slots⟩
    · rw [List.map_append, List.append_assoc]
      exact ((waiting_resolve _ _ hw he).append_left _).trans h.pending
    · rw [← List.append_assoc]
      exact h.travelling.append_right _
    · intro message hm
      rcases List.mem_append.1 hm with hm | hm
      · exact h.genuine message hm
      · rw [List.mem_singleton.1 hm]
  | @deliver place message hm =>
    have hsent : message ∈ sent :=
      h.travelling.subset (List.mem_append_right _ (List.mem_of_getElem? hm))
    have hindex : message.1 < count := List.mem_range.1
      (h.pending.subset (List.mem_append_left _ (List.mem_map_of_mem hsent)))
    simp only [sentBy, deliveredBy, List.append_nil, hm, Option.toList_some]
    refine ⟨h.pending, ?_, h.genuine, fun i hi => ?_⟩
    · obtain ⟨hlt, rfl⟩ := List.getElem?_eq_some_iff.1 hm
      rw [List.append_assoc]
      exact ((List.getElem_cons_eraseIdx_perm hlt).append_left _).trans h.travelling
    · rw [Array.getElem?_setIfInBounds]
      have hsize : i < state.slots.size := by
        by_contra hge
        have := h.slots i hi
        rw [Array.getElem?_eq_none (by omega)] at this
        simp at this
      by_cases hmi : message.1 = i
      · subst hmi
        simp [hsize, h.genuine message hsent]
      · rw [if_neg hmi, h.slots i hi]
        have : i ≠ message.1 := fun e => hmi e.symm
        simp only [List.map_append, List.map_cons, List.map_nil, List.mem_append, List.mem_singleton,
          this, or_false]
  | impossible hs hd => rw [hs, hd, List.append_nil, List.append_nil]; exact h

/-- **The run lemma**: the books of a whole schedule balance. -/
theorem accounts_run {count : Nat} {before arrived : List (Nat × Result)} {state : State}
    (h : Accounts resolve count before arrived state) (schedule : List Action) :
    Accounts resolve count (before ++ state.sent resolve schedule)
      (arrived ++ state.delivered resolve schedule) (state.run resolve schedule) := by
  induction schedule generalizing before arrived state with
  | nil => simpa using h
  | cons action rest ih =>
    have := ih (accounts_step resolve h action)
    simpa only [sent, delivered, run_cons, List.append_assoc] using this

/-! ## Runs that have come to their end -/

theorem waiting_of_isFinished {state : State} (h : state.isFinished = true) :
    state.waiting = [] ∧ state.inFlight = [] := by
  obtain ⟨hq, hw, hf⟩ := isFinished_iff.1 h
  refine ⟨?_, hf⟩
  rw [waiting, hq, List.flatMap_nil, List.nil_append, List.flatMap_eq_nil_iff]
  exact fun chunk hc => Chunk.indices_of_isEmpty (hw chunk (by simpa using hc))

/-- The messages of a table of `count` records: one for each index, with its result. -/
def messages (count : Nat) : List (Nat × Result) :=
  (List.range count).map fun i => (i, resolve i)

/-- **Exactly once**: a run from the start that has come to its end has sent and delivered one
message for each index, and no other. -/
theorem finished_delivered {count workers : Nat} {schedule : List Action}
    (h : ((initial count workers).run resolve schedule).isFinished = true) :
    ((initial count workers).sent resolve schedule).Perm (messages resolve count) ∧
    ((initial count workers).delivered resolve schedule).Perm (messages resolve count) := by
  have books := accounts_run resolve (accounts_initial resolve count workers) schedule
  obtain ⟨hwait, hflight⟩ := waiting_of_isFinished h
  have hpending := books.pending
  have htravel := books.travelling
  rw [hwait, List.append_nil] at hpending
  rw [hflight, List.append_nil] at htravel
  simp only [List.nil_append] at hpending htravel
  have hsent : ((initial count workers).sent resolve schedule).Perm (messages resolve count) := by
    have hmap := hpending.map fun i => (i, resolve i)
    rw [List.map_map] at hmap
    refine (List.Perm.of_eq ?_).trans hmap
    refine (List.map_id _).symm.trans (List.map_congr_left fun message hm => ?_)
    have := books.genuine message (by simpa using hm)
    simp [Function.comp, ← this]
  exact ⟨hsent, htravel.trans hsent⟩

/-- The slots of a run that has come to its end hold the result of every record. -/
theorem finished_slots {count workers : Nat} {schedule : List Action}
    (h : ((initial count workers).run resolve schedule).isFinished = true) {i : Nat} (hi : i < count) :
    ((initial count workers).run resolve schedule).slots[i]? = some (some (resolve i)) := by
  have books := accounts_run resolve (accounts_initial resolve count workers) schedule
  have hmem : i ∈ ((initial count workers).delivered resolve schedule).map (·.1) := by
    have := ((finished_delivered resolve h).2.map (·.1)).symm.subset
    refine this ?_
    simpa [messages] using hi
  rw [books.slots i hi, List.nil_append, if_pos hmem]

theorem finished_resultAt {count workers : Nat} {schedule : List Action}
    (h : ((initial count workers).run resolve schedule).isFinished = true) {i : Nat} (hi : i < count) :
    ((initial count workers).run resolve schedule).resultAt i = resolve i := by
  rw [resultAt, finished_slots resolve h hi]

/-! ## Every run can be brought to its end -/

@[simp] theorem size_workers_step (state : State) (action : Action) :
    (state.step resolve action).workers.size = state.workers.size := by
  have hmove := moves_step resolve state action
  generalize state.step resolve action = next at hmove
  cases hmove <;> simp

/-- How many moves are left: two for each index that waits, one for each message in flight and one
for each chunk in the queue. -/
def remaining (state : State) : Nat :=
  2 * state.waiting.length + state.inFlight.length + state.queue.length

/-- **Progress**: as long as something is left to do, some move does a part of it. -/
theorem exists_progress {state : State} (hpool : 0 < state.workers.size)
    (h : ¬ state.isFinished = true) :
    ∃ action, (state.step resolve action).remaining < state.remaining := by
  by_cases hflight : state.inFlight = []
  · by_cases hidle : ∃ (worker : Nat) (current : Chunk),
        state.workers[worker]? = some current ∧ ¬ current.isEmpty = true
    · obtain ⟨worker, current, hw, he⟩ := hidle
      refine ⟨.resolve worker, ?_⟩
      have hlen := (waiting_resolve (state.inFlight ++ [(current.start, resolve current.start)])
        (state.log ++ eventsOf (resolve current.start)) hw he).length_eq
      rw [List.length_cons] at hlen
      simp only [step, hw, he, remaining, Bool.false_eq_true, if_false, List.length_append,
        List.length_singleton]
      omega
    · have hall : ∀ (worker : Nat) (current : Chunk),
          state.workers[worker]? = some current → current.isEmpty = true := by
        intro worker current hw
        by_contra he
        exact hidle ⟨worker, current, hw, he⟩
      have hqueue : state.queue ≠ [] := by
        intro hq
        refine h (isFinished_iff.2 ⟨hq, fun current hc => ?_, hflight⟩)
        obtain ⟨worker, hw⟩ := Array.getElem?_of_mem hc
        exact hall worker current hw
      obtain ⟨chunk, rest, hq⟩ := List.exists_cons_of_ne_nil hqueue
      have hw := Array.getElem?_eq_getElem hpool
      have he := hall 0 _ hw
      refine ⟨.take 0 0, ?_⟩
      have hfirst : state.queue[0]? = some chunk := by rw [hq]; rfl
      have hlen := (waiting_take hw he hfirst).length_eq
      simp only [step, hw, hq, List.getElem?_cons_zero, he, if_true, remaining, List.length_cons,
        List.eraseIdx_cons_zero] at hlen ⊢
      omega
  · obtain ⟨message, rest, hf⟩ := List.exists_cons_of_ne_nil hflight
    refine ⟨.deliver 0, ?_⟩
    simp only [step, hf, List.getElem?_cons_zero, remaining, waiting, List.eraseIdx_cons_zero,
      List.length_cons]
    omega

/-- **No schedule gets stuck**: whatever has happened, the pool can be brought to its end. -/
theorem exists_finished {state : State} (hpool : 0 < state.workers.size) :
    ∃ rest, (state.run resolve rest).isFinished = true := by
  induction hn : state.remaining using Nat.strongRecOn generalizing state with
  | ind n ih =>
    by_cases h : state.isFinished = true
    · exact ⟨[], h⟩
    · obtain ⟨action, hless⟩ := exists_progress resolve hpool h
      obtain ⟨rest, hrest⟩ := ih _ (hn ▸ hless) (by simpa using hpool) rfl
      exact ⟨action :: rest, hrest⟩

@[simp] theorem size_workers_run (state : State) (schedule : List Action) :
    (state.run resolve schedule).workers.size = state.workers.size := by
  induction schedule generalizing state with
  | nil => rfl
  | cons action rest ih => exact (ih _).trans (size_workers_step resolve state action)

/-! ## Workers that take turns -/

/-- The pool while the given worker has the given chunk and all other workers are idle. -/
structure AtWork (queue : List Chunk) (worker : Nat) (chunk : Chunk) (state : State) : Prop where
  queue : state.queue = queue
  busy : state.workers[worker]? = some chunk
  idle : ∀ (other : Nat) (current : Chunk), other ≠ worker →
    state.workers[other]? = some current → current.isEmpty = true
  inFlight : state.inFlight = []

theorem atWork_turn {queue : List Chunk} {worker start stop : Nat} {state : State}
    (h : AtWork queue worker ⟨start, stop⟩ state) (hlt : start < stop) :
    AtWork queue worker ⟨start + 1, stop⟩ (state.run resolve [.resolve worker, .deliver 0]) := by
  have he : ¬ (⟨start, stop⟩ : Chunk).isEmpty = true := by
    rw [Chunk.isEmpty_iff]
    exact Nat.not_le.2 hlt
  obtain ⟨hin, -⟩ := Array.getElem?_eq_some_iff.1 h.busy
  simp only [run_cons, run_nil, step, h.busy, he, Bool.false_eq_true, if_false,
    h.inFlight, List.nil_append, List.getElem?_cons_zero, List.eraseIdx_cons_zero]
  refine ⟨h.queue, by simp [hin], fun other current hne hc => ?_, rfl⟩
  rw [Array.getElem?_setIfInBounds, if_neg hne.symm] at hc
  exact h.idle other current hne hc

/-- A worker works through its chunk, record by record. -/
theorem atWork_chunk {queue : List Chunk} {worker start stop : Nat} {state : State} (n : Nat)
    (h : AtWork queue worker ⟨start, stop⟩ state) (hn : start + n ≤ stop) :
    AtWork queue worker ⟨start + n, stop⟩
      (state.run resolve (List.replicate n [Action.resolve worker, .deliver 0]).flatten) := by
  induction n generalizing start state with
  | zero => exact h
  | succ n ih =>
    rw [List.replicate_succ, List.flatten_cons, run_append]
    have := ih (atWork_turn resolve h (by omega)) (by omega)
    rwa [Nat.add_right_comm, Nat.add_assoc] at this

/-- The pool between two chunks: all workers are idle and nothing is in flight. -/
structure AtRest (queue : List Chunk) (state : State) : Prop where
  queue : state.queue = queue
  idle : ∀ current ∈ state.workers, current.isEmpty = true
  inFlight : state.inFlight = []

theorem atRest_chunk {chunk : Chunk} {queue : List Chunk} {worker : Nat} {state : State}
    (h : AtRest (chunk :: queue) state) (hle : chunk.start ≤ chunk.stop)
    (hw : worker < state.workers.size) :
    AtRest queue (state.run resolve (.take worker 0 ::
      (List.replicate chunk.size [Action.resolve worker, .deliver 0]).flatten)) := by
  have hidle := h.idle _ (Array.getElem_mem hw)
  have hstart : AtWork queue worker chunk (state.step resolve (.take worker 0)) := by
    simp only [step, Array.getElem?_eq_getElem hw, h.queue, List.getElem?_cons_zero, hidle, if_true,
      List.eraseIdx_cons_zero]
    refine ⟨rfl, by simp [hw], fun other current hne hc => ?_, h.inFlight⟩
    rw [Array.getElem?_setIfInBounds, if_neg hne.symm] at hc
    exact h.idle current (Array.mem_of_getElem? hc)
  have hend := atWork_chunk resolve chunk.size hstart (by unfold Chunk.size; omega)
  refine ⟨hend.queue, fun current hc => ?_, hend.inFlight⟩
  obtain ⟨other, hother⟩ := Array.getElem?_of_mem hc
  by_cases he : other = worker
  · subst he
    have heq := hother.symm.trans hend.busy
    simp only [Option.some.injEq] at heq
    rw [heq]
    have hstop : chunk.stop ≤ chunk.start + chunk.size := by unfold Chunk.size; omega
    exact Chunk.isEmpty_iff.2 hstop
  · exact hend.idle other current he hother

theorem atRest_turns {queue : List Chunk} (hchunks : ∀ chunk ∈ queue, chunk.start ≤ chunk.stop)
    {workers : Nat} (k : Nat) {state : State} (hpool : 0 < workers) (hsize : state.workers.size = workers)
    (h : AtRest queue state) :
    AtRest [] (state.run resolve ((queue.zipIdx k).flatMap fun (chunk, k) =>
      .take (k % workers) 0 ::
        (List.replicate chunk.size [Action.resolve (k % workers), .deliver 0]).flatten)) := by
  induction queue generalizing k state with
  | nil => exact h
  | cons chunk queue ih =>
    rw [List.zipIdx_cons, List.flatMap_cons, run_append]
    refine ih (fun c hc => hchunks c (List.mem_cons_of_mem _ hc)) (k + 1) ?_ ?_
    · rw [size_workers_run, hsize]
    · exact atRest_chunk resolve h (hchunks chunk List.mem_cons_self)
        (by rw [hsize]; exact Nat.mod_lt _ hpool)

/-- Workers that take turns come to the end. -/
theorem finalState_isFinished {count workers : Nat} (hpool : 0 < workers) :
    (finalState resolve count workers).isFinished = true := by
  have hchunks : ∀ chunk ∈ chunks count, chunk.start ≤ chunk.stop := by
    intro chunk hc
    obtain ⟨k, hk, rfl⟩ := List.mem_map.1 hc
    have := List.mem_range.1 hk
    simp only [chunkCount, chunkSize] at this ⊢
    omega
  have hrest : AtRest (chunks count) (initial count workers) :=
    ⟨rfl, fun current hc => by simp_all [Chunk.isEmpty_iff], rfl⟩
  have hend := atRest_turns resolve hchunks 0 hpool (by simp) hrest
  exact isFinished_iff.2 ⟨hend.queue, hend.idle, hend.inFlight⟩

end State

end Unstrip.Pool
