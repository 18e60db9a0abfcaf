import Unstrip.Proofs.Build
import Unstrip.Proofs.Machine.Records

/-!
# Cursors

Any number of cursors may be at work in a table at once. A `Call` makes one at the first descriptor, makes
a copy of one, asks one for its next item or asks how many may still come. All cursors hand out the same
sequence, `DescriptorTable.item?`, each from its place on: how many items have been asked for is all that
a cursor's future depends on (`perform_map`). Main statement: this holds for any calls in any order, a copy
goes on like its source would have, the greatest number that is told is never too small, and `collect` comes
to the same sequence (`cursors_replay_table`).
-/

namespace Unstrip

namespace DescriptorTable

variable {table : DescriptorTable}

/-! ## One cursor -/

/-- What comes after `n` other items: the descriptor with that index or its failure, and nothing if one
before has failed or the table has come to its end. -/
def item? (table : DescriptorTable) (n : Nat) : Option (Except Fault Descriptor) :=
  if n < table.count ∧ ∀ j, j < n → (table.get j).isOk then some (table.get n) else none

/-- The cursor after `n` items have been asked for. -/
def cursorAfter (table : DescriptorTable) : Nat → Cursor
  | 0 => table.cursor
  | n + 1 => (table.cursorAfter n).step.2

/-- Where a cursor is when `n` items have been asked for. -/
inductive IsAfter (table : DescriptorTable) (n : Nat) : Cursor → Prop
  | going (hgood : ∀ j, j < n → j < table.count → (table.get j).isOk) :
    IsAfter table n ⟨table, min n table.count, false⟩
  | failed {j : Nat} (hj : j < n) (hcount : j < table.count) (hbad : ¬ (table.get j).isOk) :
    IsAfter table n ⟨table, j + 1, true⟩

/-- In front of the end, a step reads the next descriptor. -/
theorem step_of_lt {n : Nat} (h : n < table.count) :
    Cursor.step ⟨table, n, false⟩ = (some (table.get n), ⟨table, n + 1, !(table.get n).isOk⟩) := by
  unfold Cursor.step
  simp only [Bool.false_eq_true, false_or, if_neg (Nat.not_le.2 h)]
  cases table.get n <;> rfl

/-- A step hands out the item of the place, and goes on to the next place. -/
theorem IsAfter.step {n : Nat} {cursor : Cursor} (h : table.IsAfter n cursor) :
    cursor.step.1 = table.item? n ∧ table.IsAfter (n + 1) cursor.step.2 := by
  cases h with
  | failed hj hcount hbad =>
    have hnone : table.item? n = none := if_neg fun hitem => hbad (hitem.2 _ hj)
    exact ⟨hnone.symm, .failed (Nat.lt_succ_of_lt hj) hcount hbad⟩
  | going hgood =>
    by_cases hn : n < table.count
    · have hitem : table.item? n = some (table.get n) :=
        if_pos ⟨hn, fun j hj => hgood j hj (Nat.lt_trans hj hn)⟩
      rw [Nat.min_eq_left (Nat.le_of_lt hn), step_of_lt hn, hitem]
      refine ⟨rfl, ?_⟩
      dsimp only
      by_cases hget : (table.get n).isOk
      · have hafter : table.IsAfter (n + 1) ⟨table, min (n + 1) table.count, false⟩ := by
          refine .going fun j hj hcount => ?_
          rcases Nat.lt_succ_iff_lt_or_eq.1 hj with hlt | rfl
          · exact hgood j hlt hcount
          · exact hget
        rw [Nat.min_eq_left hn] at hafter
        rwa [hget]
      · rw [Bool.eq_false_iff.2 hget]
        exact .failed (Nat.lt_succ_self n) hn hget
    · have hnone : table.item? n = none := if_neg fun hitem => hn hitem.1
      have hle := Nat.not_lt.1 hn
      have hstep : Cursor.step ⟨table, table.count, false⟩ = (none, ⟨table, table.count, false⟩) := by
        unfold Cursor.step
        exact if_pos (by simp)
      rw [Nat.min_eq_right hle, hstep, hnone]
      have hafter : table.IsAfter (n + 1) ⟨table, min (n + 1) table.count, false⟩ :=
        .going fun j _ hcount => hgood j (Nat.lt_of_lt_of_le hcount hle) hcount
      rw [Nat.min_eq_right (Nat.le_succ_of_le hle)] at hafter
      exact ⟨rfl, hafter⟩

theorem isAfter_cursorAfter (table : DescriptorTable) (n : Nat) : table.IsAfter n (table.cursorAfter n) := by
  induction n with
  | zero =>
    have hstart : table.IsAfter 0 ⟨table, min 0 table.count, false⟩ := .going fun j hj => nomatch hj
    rwa [Nat.zero_min] at hstart
  | succ n ih => exact ih.step.2

@[simp] theorem step_cursorAfter (table : DescriptorTable) (n : Nat) :
    (table.cursorAfter n).step = (table.item? n, table.cursorAfter (n + 1)) :=
  Prod.ext (isAfter_cursorAfter table n).step.1 rfl

/-! ## What is still to come -/

theorem isSome_item?_iff {n : Nat} :
    (table.item? n).isSome ↔ n < table.count ∧ ∀ j, j < n → (table.get j).isOk := by
  unfold item?
  split <;> simp_all

/-- The greatest number of items that a cursor at place `n` tells is zero if a descriptor has failed, and
otherwise the number of the descriptors that are left. -/
theorem remaining_cursorAfter (table : DescriptorTable) (n : Nat) :
    (∃ j, j < n ∧ j < table.count ∧ ¬ (table.get j).isOk) ∧ (table.cursorAfter n).remaining = (0, 0) ∨
    (∀ j, j < n → j < table.count → (table.get j).isOk) ∧
      (table.cursorAfter n).remaining = (0, table.count - n) := by
  have h := isAfter_cursorAfter table n
  generalize table.cursorAfter n = cursor at h ⊢
  cases h with
  | @failed j hj hcount hbad => exact .inl ⟨⟨j, hj, hcount, hbad⟩, rfl⟩
  | going hgood =>
    have hleft : table.count - min n table.count = table.count - n := by omega
    exact .inr ⟨hgood, by rw [← hleft]; rfl⟩

/-- An item that is still to come is among as many as are told. -/
theorem lt_of_isSome_item? {n k : Nat} (h : (table.item? (n + k)).isSome) :
    k < (table.cursorAfter n).remaining.2 := by
  obtain ⟨hlt, hgood⟩ := isSome_item?_iff.1 h
  rcases remaining_cursorAfter table n with ⟨⟨j, hj, -, hbad⟩, -⟩ | ⟨-, hremaining⟩
  · exact absurd (hgood j (Nat.lt_of_lt_of_le hj (Nat.le_add_right n k))) hbad
  · rw [hremaining]
    omega

/-- If no descriptor from the place on fails, as many items come as are told. -/
theorem isSome_item?_of_lt {n k : Nat}
    (hgood : ∀ index, n ≤ index → index < table.count → (table.get index).isOk)
    (h : k < (table.cursorAfter n).remaining.2) : (table.item? (n + k)).isSome := by
  rcases remaining_cursorAfter table n with ⟨-, hremaining⟩ | ⟨hbefore, hremaining⟩
  · rw [hremaining] at h
    cases h
  · rw [hremaining] at h
    have hin : n + k < table.count := by omega
    refine isSome_item?_iff.2 ⟨hin, fun j hj => ?_⟩
    rcases Nat.lt_or_ge j n with hlt | hge
    · exact hbefore j hlt (Nat.lt_trans hj hin)
    · exact hgood j hge (Nat.lt_trans hj hin)

/-- The numbers below a bound among the first ones. -/
theorem countP_range_lt (count bound : Nat) :
    (List.range count).countP (fun k => decide (k < bound)) = min count bound := by
  induction count with
  | zero => rw [List.range_zero, List.countP_nil, Nat.zero_min]
  | succ count ih =>
    rw [List.range_succ, List.countP_append, ih, List.countP_singleton]
    split <;> rename_i h <;> simp at h <;> omega

theorem reaches_cursorAfter (table : DescriptorTable) (n : Nat) : table.Reaches (table.cursorAfter n) := by
  induction n with
  | zero => exact .start
  | succ n ih => exact .step ih

/-! ## Many cursors -/

/-- What is asked of the cursors of a table, which have numbers in the order in which they are made. -/
inductive Call where
  /-- A new cursor at the first descriptor. -/
  | start
  /-- A new cursor at the place of another one. -/
  | copy (source : Nat)
  /-- The next item of a cursor. -/
  | next (number : Nat)
  /-- How many items of a cursor may still come. -/
  | remaining (number : Nat)
  deriving DecidableEq, Repr

inductive Answer where
  /-- The number of a new cursor. -/
  | made (number : Nat)
  /-- The next item, or nothing at the end. -/
  | item (item? : Option (Except Fault Descriptor))
  /-- The least and the greatest number of items that may still come. -/
  | bounds (least greatest : Nat)

/-- The cursors after a call, and the answer to it; none if there is no cursor with that number. -/
def perform (table : DescriptorTable) (cursors : Array Cursor) : Call → Array Cursor × Option Answer
  | .start => (cursors.push table.cursor, some (.made cursors.size))
  | .copy source =>
    match cursors[source]? with
    | some cursor => (cursors.push cursor, some (.made cursors.size))
    | none => (cursors, none)
  | .next number =>
    match cursors[number]? with
    | some cursor => (cursors.setIfInBounds number cursor.step.2, some (.item cursor.step.1))
    | none => (cursors, none)
  | .remaining number =>
    match cursors[number]? with
    | some cursor => (cursors, some (.bounds cursor.remaining.1 cursor.remaining.2))
    | none => (cursors, none)

def cursorsAfter (table : DescriptorTable) (calls : List Call) : Array Cursor :=
  calls.foldl (fun cursors call => (table.perform cursors call).1) #[]

/-- The items that come from one cursor during some calls. -/
def itemsFrom (table : DescriptorTable) (number : Nat) :
    Array Cursor → List Call → List (Option (Except Fault Descriptor))
  | _, [] => []
  | cursors, call :: calls =>
    let later := table.itemsFrom number (table.perform cursors call).1 calls
    match (table.perform cursors call).2 with
    | some (.item item?) => if call = .next number then item? :: later else later
    | _ => later

/-- The places of the cursors after a call. -/
def move (places : Array Nat) : Call → Array Nat
  | .start => places.push 0
  | .copy source =>
    match places[source]? with
    | some n => places.push n
    | none => places
  | .next number =>
    match places[number]? with
    | some n => places.setIfInBounds number (n + 1)
    | none => places
  | .remaining _ => places

/-- The places of the cursors after some calls: how many items have been asked for, of the cursor or,
before it was made, of the one that it is a copy of. -/
def placesAfter (calls : List Call) : Array Nat := calls.foldl move #[]

/-- The answer to a call when the cursors have the given places. -/
def answerAt (table : DescriptorTable) (places : Array Nat) : Call → Option Answer
  | .start => some (.made places.size)
  | .copy source => places[source]?.map fun _ => .made places.size
  | .next number => places[number]?.map fun n => .item (table.item? n)
  | .remaining number => places[number]?.map fun n => .bounds 0 (table.cursorAfter n).remaining.2

/-- The places of the cursors are all that matters. -/
@[simp] theorem perform_map (table : DescriptorTable) (places : Array Nat) (call : Call) :
    table.perform (places.map table.cursorAfter) call =
      ((move places call).map table.cursorAfter, table.answerAt places call) := by
  cases call with
  | start => simp [perform, move, answerAt, cursorAfter]
  | copy source =>
    cases hplace : places[source]? <;> simp [perform, move, answerAt, hplace]
  | next number =>
    cases hplace : places[number]? <;> simp [perform, move, answerAt, hplace]
  | remaining number =>
    cases hplace : places[number]? <;> simp [perform, move, answerAt, hplace, Cursor.remaining]

theorem cursorsAfter_eq (table : DescriptorTable) (calls : List Call) :
    table.cursorsAfter calls = (placesAfter calls).map table.cursorAfter := by
  let step (cursors : Array Cursor) (call : Call) : Array Cursor := (table.perform cursors call).1
  have hstep (places : Array Nat) (call : Call) :
      step (places.map table.cursorAfter) call = (move places call).map table.cursorAfter := by
    simp [step]
  have hrun := @List.foldl_hom _ _ _ (Array.map table.cursorAfter) move step calls #[] hstep
  rwa [Array.map_empty] at hrun

/-- Only a call for its next item moves a cursor. -/
theorem getElem?_move {places : Array Nat} {number n : Nat} (h : places[number]? = some n) (call : Call) :
    (move places call)[number]? = some (if call = .next number then n + 1 else n) := by
  have hlt := (Array.getElem?_eq_some_iff.1 h).1
  cases call with
  | start => simp [move, Array.getElem?_push, h, Nat.ne_of_lt hlt]
  | copy source =>
    cases hsource : places[source]? <;> simp [move, hsource, Array.getElem?_push, h, Nat.ne_of_lt hlt]
  | next other =>
    by_cases heq : other = number
    · subst heq
      simp only [move, h, if_true]
      exact Array.getElem?_setIfInBounds_self_of_lt hlt
    · cases hother : places[other]? <;> simp [move, hother, h, heq]
  | remaining other => simp [move, h]

/-- A run hands out the sequence from the place on, as far as is asked. -/
theorem itemsFrom_map {places : Array Nat} {number n : Nat} (h : places[number]? = some n)
    (calls : List Call) :
    table.itemsFrom number (places.map table.cursorAfter) calls =
      (List.range (calls.count (.next number))).map fun k => table.item? (n + k) := by
  -- on the calls, with the places as they are before each of them
  induction calls generalizing places n with
  | nil => rfl
  | cons call calls ih =>
    have hlater := ih (getElem?_move h call)
    rw [itemsFrom, perform_map]
    dsimp only
    rw [hlater, List.count_cons]
    by_cases hcall : call = .next number
    · subst hcall
      simp [answerAt, h, List.range_succ_eq_map, Nat.add_assoc, Nat.add_comm 1]
    · simp only [hcall, if_false, beq_iff_eq, Nat.add_zero]
      split <;> rfl

/-- What is told of a cursor at place `n`: the greatest number is enough for all calls, it is exact if
no descriptor from the place on fails, and zero after a failure. It is found without a trap. -/
structure Tells (table : DescriptorTable) (cursors : Array Cursor) (number n greatest : Nat) : Prop where
  answer : (table.perform cursors (.remaining number)).2 = some (.bounds 0 greatest)
  enough : ∀ calls, (table.itemsFrom number cursors calls).countP Option.isSome ≤ greatest
  tight : (∀ index, n ≤ index → index < table.count → (table.get index).isOk) → ∀ calls,
    (table.itemsFrom number cursors calls).countP Option.isSome =
      min (calls.count (.next number)) greatest
  failed : (∃ index, index < n ∧ index < table.count ∧ ¬ (table.get index).isOk) → greatest = 0
  checked : ∀ cursor, cursors[number]? = some cursor → Machine.remaining cursor = .ok (0, greatest)

theorem tells_map {places : Array Nat} {number n : Nat} (h : places[number]? = some n) :
    table.Tells (places.map table.cursorAfter) number n (table.cursorAfter n).remaining.2 := by
  have hcount (calls : List Call) :
      (table.itemsFrom number (places.map table.cursorAfter) calls).countP Option.isSome =
        (List.range (calls.count (.next number))).countP fun k => (table.item? (n + k)).isSome := by
    rw [itemsFrom_map h, List.countP_map]
    rfl
  refine ⟨by rw [perform_map, answerAt, h]; rfl, fun calls => ?_, fun hgood calls => ?_, ?_, ?_⟩
  · rw [hcount]
    have hmono := List.countP_mono_left (l := List.range (calls.count (.next number))) fun k _ hsome =>
      decide_eq_true (@lt_of_isSome_item? table n k hsome)
    rw [countP_range_lt] at hmono
    exact Nat.le_trans hmono (Nat.min_le_right _ _)
  · rw [hcount, ← countP_range_lt]
    refine List.countP_congr fun k _ => ?_
    rw [decide_eq_true_iff]
    exact ⟨lt_of_isSome_item?, isSome_item?_of_lt hgood⟩
  · rintro ⟨index, hlt, hin, hbad⟩
    rcases remaining_cursorAfter table n with ⟨-, hremaining⟩ | ⟨hgood, -⟩
    · rw [hremaining]
    · exact absurd (hgood index hlt hin) hbad
  · intro cursor hcursor
    rw [Array.getElem?_map, h, Option.map_some, Option.some.injEq] at hcursor
    subst hcursor
    exact Machine.remaining_eq_ok (reaches_cursorAfter table n)

theorem placesAfter_concat (before : List Call) (call : Call) :
    placesAfter (before ++ [call]) = move (placesAfter before) call := List.foldl_concat _ _ _ _

theorem isOk_collect_iff :
    table.collect.isOk ↔ ∀ index, index < table.count → (table.get index).isOk := by
  cases hcollect : table.collect with
  | ok read =>
    obtain ⟨hsize, hall⟩ := collect_eq_ok_iff.1 hcollect
    refine iff_of_true rfl fun index hindex => ?_
    rw [hall index (hsize.symm ▸ hindex)]
    rfl
  | error stop =>
    obtain ⟨-, hlt, -, hbad⟩ := collect_eq_error_iff.1 hcollect
    refine iff_of_false (by simp [Except.toBool]) fun hall => ?_
    have hgood := hall _ hlt
    rw [hbad] at hgood
    cases hgood

/-- **All cursors replay the same sequence.** Whatever is asked of however many cursors in any order: a
cursor from which `n` items have been asked for hands out what comes after `n` items, and what is told of
it holds; a new cursor begins with the first item; a copy goes on like its source would have, whatever
becomes of either; and `collect` comes to the good descriptors of the sequence, with the failure that ends
it. -/
theorem cursors_replay_table (table : DescriptorTable) :
    (∀ before, (placesAfter before).size = (table.cursorsAfter before).size ∧
      ∀ number n, (placesAfter before)[number]? = some n →
        (∀ calls, table.itemsFrom number (table.cursorsAfter before) calls =
          (List.range (calls.count (.next number))).map fun k => table.item? (n + k)) ∧
        ∃ greatest, table.Tells (table.cursorsAfter before) number n greatest) ∧
    (∀ before, let made := (table.cursorsAfter before).size
      (table.perform (table.cursorsAfter before) .start).2 = some (.made made) ∧
      ∀ calls, table.itemsFrom made (table.cursorsAfter (before ++ [.start])) calls =
        (List.range (calls.count (.next made))).map table.item?) ∧
    (∀ before source, source < (table.cursorsAfter before).size →
      let made := (table.cursorsAfter before).size
      (table.perform (table.cursorsAfter before) (.copy source)).2 = some (.made made) ∧
      ∀ calls calls', calls.count (.next made) = calls'.count (.next source) →
        table.itemsFrom made (table.cursorsAfter (before ++ [.copy source])) calls =
          table.itemsFrom source (table.cursorsAfter before) calls') ∧
    (table.collect.isOk ↔ ∀ index, index < table.count → (table.get index).isOk) ∧
    (∀ read, table.collect = .ok read ↔
      read.size = table.count ∧ ∀ i (h : i < read.size), table.get i = .ok read[i]) ∧
    ∀ stop, table.collect = .error stop ↔
      stop.expected = table.count ∧ stop.read.size < table.count ∧
        (∀ i (h : i < stop.read.size), table.get i = .ok stop.read[i]) ∧
        table.get stop.read.size = .error stop.fault := by
  have hsize (before : List Call) : (table.cursorsAfter before).size = (placesAfter before).size := by
    rw [cursorsAfter_eq, Array.size_map]
  refine ⟨fun before => ⟨(hsize before).symm, fun number n h => ?_⟩, fun before => ?_,
    fun before source hsource => ?_, isOk_collect_iff, fun read => collect_eq_ok_iff,
    fun stop => collect_eq_error_iff⟩
  · rw [cursorsAfter_eq]
    exact ⟨itemsFrom_map h, _, tells_map h⟩
  · have hmade : (move (placesAfter before) .start)[(placesAfter before).size]? = some 0 :=
      Array.getElem?_push_size
    rw [hsize]
    refine ⟨by rw [cursorsAfter_eq, perform_map]; rfl, fun calls => ?_⟩
    rw [cursorsAfter_eq, placesAfter_concat, itemsFrom_map hmade]
    simp only [Nat.zero_add]
  · rw [hsize] at hsource ⊢
    have hplace := Array.getElem?_eq_getElem hsource
    have hmade : (move (placesAfter before) (.copy source))[(placesAfter before).size]? =
        some (placesAfter before)[source] := by
      simp only [move, hplace, Array.getElem?_push_size]
    refine ⟨by rw [cursorsAfter_eq, perform_map, answerAt, hplace]; rfl, fun calls calls' hcount => ?_⟩
    rw [cursorsAfter_eq, placesAfter_concat, itemsFrom_map hmade, cursorsAfter_eq, itemsFrom_map hplace,
      hcount]

/-- Two cursors on a table whose second descriptor is cut: the failure is the last item of both, and of a
copy of the first. -/
theorem cursors_replay_table_two_functions :
    let cut : Image := twoFunctions.extract 0 60
    let table := ofHeader cut (Header.readAt cut 1 .go116 4)
    let before : List Call := [.start, .next 0, .copy 0]
    let calls : List Call := [.next 0, .next 1, .remaining 0, .next 1]
    let fault : Fault := .truncated 57 8 60
    (placesAfter before)[1]? = some 1 ∧
    table.itemsFrom 1 (table.cursorsAfter before) calls = [some (.error fault), none] ∧
    (∃ greatest, table.Tells (table.cursorsAfter before) 1 1 greatest) ∧
    0 < (table.cursorsAfter before).size ∧ [Call.next 2].count (.next 2) = calls.count (.next 0) ∧
    table.itemsFrom 2 (table.cursorsAfter (before ++ [.copy 0])) [.next 2] =
      table.itemsFrom 0 (table.cursorsAfter before) calls := by
  intro cut table before calls fault
  obtain ⟨hplaces, -, hcopy, -⟩ := cursors_replay_table table
  have hplace : (placesAfter before)[1]? = some 1 := by decide
  have hlive : 0 < (table.cursorsAfter before).size := by decide +kernel
  obtain ⟨hitems, htells⟩ := (hplaces before).2 1 1 hplace
  exact ⟨hplace, (hitems calls).trans (by decide +kernel), htells, hlive, by decide,
    (hcopy before 0 hlive).2 [.next 2] calls (by decide)⟩

end DescriptorTable

end Unstrip
