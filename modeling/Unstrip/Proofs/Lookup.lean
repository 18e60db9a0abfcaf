import Unstrip.Proofs.SortedFlag

/-!
# Which symbol a look-up finds

Several functions may start at one address, and the symbols of a table need not stand in the order of
their addresses. `Owns` says which symbol an address belongs to: of the symbols that are not above it, the
one with the greatest address, and of several the last. A search by halving finds it where the addresses
ascend, a walk over all symbols finds it anywhere, and so does the look-up that chooses between them by
the sorted flag (`lookup_finds_owner`).
-/

namespace Unstrip

/-! ## Searching by halving -/

section
variable {α : Type} {test : α → Bool} {items : Array α} {low high : Nat}

/-- The items in front of `low` pass the test, and those from `high` on do not. -/
structure Brackets (test : α → Bool) (items : Array α) (low high : Nat) : Prop where
  le : low ≤ high
  inside : high ≤ items.size
  front : ∀ i (h : i < items.size), i < low → test items[i] = true
  back : ∀ i (h : i < items.size), high ≤ i → test items[i] = false

/-- Halving closes a bracket, if no item that passes comes behind one that does not. -/
theorem brackets_partitionPoint
    (hfront : ∀ i j (hj : j < items.size) (hij : i ≤ j), test items[j] = true → test items[i] = true)
    (h : Brackets test items low high) :
    Brackets test items (partitionPoint test items low high) (partitionPoint test items low high) := by
  fun_induction partitionPoint test items low high with
  | case1 low high hlt middle hnone =>
    have hin := h.inside
    rw [Array.getElem?_eq_none_iff] at hnone
    omega
  | case2 low high hlt middle item hitem hpass ih =>
    obtain ⟨hmiddle, rfl⟩ := Array.getElem?_eq_some_iff.1 hitem
    refine ih ⟨by omega, h.inside, fun i hi hlow => ?_, h.back⟩
    exact hfront i middle hmiddle (by omega) hpass
  | case3 low high hlt middle item hitem hfail ih =>
    obtain ⟨hmiddle, rfl⟩ := Array.getElem?_eq_some_iff.1 hitem
    refine ih ⟨by omega, Nat.le_of_lt hmiddle, h.front, fun i hi hle => ?_⟩
    exact Bool.eq_false_iff.2 fun hpass => hfail (hfront middle i hi hle hpass)
  | case4 low high hle =>
    obtain rfl : low = high := Nat.le_antisymm h.le (Nat.not_lt.1 hle)
    exact h

end

namespace SymbolTable

variable {symbols : List Symbol} {address index : Nat} {symbol : Symbol} {result : Option Symbol}

/-! ## Owners of addresses -/

/-- The symbol at `index` is the one that `address` belongs to. -/
structure Owns (symbols : List Symbol) (address index : Nat) (symbol : Symbol) : Prop where
  place : symbols[index]? = some symbol
  notAbove : symbol.address ≤ address
  greatest : ∀ other ∈ symbols, other.address ≤ address → other.address ≤ symbol.address
  last : ∀ index' other, symbols[index']? = some other → other.address = symbol.address → index' ≤ index

/-- No symbol owns an address if all are above it. -/
def Answers (symbols : List Symbol) (address : Nat) : Option Symbol → Prop
  | none => ∀ symbol ∈ symbols, address < symbol.address
  | some symbol => ∃ index, Owns symbols address index symbol

/-- An address belongs to one place. -/
theorem Owns.unique {index' : Nat} {symbol' : Symbol} (h : Owns symbols address index symbol)
    (h' : Owns symbols address index' symbol') : index = index' ∧ symbol = symbol' := by
  have hle := h'.greatest symbol (List.mem_of_getElem? h.place) h.notAbove
  have hge := h.greatest symbol' (List.mem_of_getElem? h'.place) h'.notAbove
  have hsame : symbol.address = symbol'.address := Nat.le_antisymm hle hge
  have hindex : index = index' :=
    Nat.le_antisymm (h'.last index symbol h.place hsame) (h.last index' symbol' h'.place hsame.symm)
  subst hindex
  exact ⟨rfl, Option.some.inj (h.place.symm.trans h'.place)⟩

theorem Answers.unique {result' : Option Symbol} (h : Answers symbols address result)
    (h' : Answers symbols address result') : result = result' := by
  cases result with
  | none =>
    cases result' with
    | none => rfl
    | some symbol' =>
      obtain ⟨index, howns⟩ := h'
      exact absurd howns.notAbove (Nat.not_le.2 (h symbol' (List.mem_of_getElem? howns.place)))
  | some symbol =>
    obtain ⟨index, howns⟩ := h
    cases result' with
    | none => exact absurd howns.notAbove (Nat.not_le.2 (h' symbol (List.mem_of_getElem? howns.place)))
    | some symbol' =>
      obtain ⟨index', howns'⟩ := h'
      rw [(howns.unique howns').2]

/-- The result of a look-up, in full: nothing if all symbols are above the address, and otherwise the
symbol that it belongs to. -/
def Finds (symbols : List Symbol) (address : Nat) (result : Option Symbol) : Prop :=
  (result = none ↔ ∀ symbol ∈ symbols, address < symbol.address) ∧
    ∀ symbol, result = some symbol ↔ ∃ index, Owns symbols address index symbol

theorem Answers.finds (h : Answers symbols address result) : Finds symbols address result := by
  refine ⟨⟨fun hnone => ?_, fun hall => ?_⟩, fun symbol => ⟨fun hsome => ?_, fun howns => ?_⟩⟩
  · rwa [hnone] at h
  · have hnone : Answers symbols address none := hall
    exact h.unique hnone
  · rwa [hsome] at h
  · have hsome : Answers symbols address (some symbol) := howns
    exact h.unique hsome

/-! ## The walk over all symbols -/

/-- A symbol behind the others owns the address if none of them that is not above it has a greater one. -/
theorem owns_concat_length (hle : symbol.address ≤ address)
    (hgreatest : ∀ other ∈ symbols, other.address ≤ address → other.address ≤ symbol.address) :
    Owns (symbols ++ [symbol]) address symbols.length symbol where
  place := by simp
  notAbove := hle
  greatest other hother hle' := by
    rcases List.mem_append.1 hother with hother | hother
    · exact hgreatest other hother hle'
    · rw [List.mem_singleton.1 hother]
  last index' other hplace _ := by
    have hlt := (List.getElem?_eq_some_iff.1 hplace).1
    rw [List.length_append, List.length_singleton] at hlt
    omega

/-- An owner keeps its address if what comes behind is above the address or below the owner. -/
theorem Owns.concat {owner : Symbol} (h : Owns symbols address index owner)
    (hless : symbol.address ≤ address → symbol.address < owner.address) :
    Owns (symbols ++ [symbol]) address index owner where
  place := by
    rw [List.getElem?_append_left (List.getElem?_eq_some_iff.1 h.place).1]
    exact h.place
  notAbove := h.notAbove
  greatest other hother hle := by
    rcases List.mem_append.1 hother with hother | hother
    · exact h.greatest other hother hle
    · rw [List.mem_singleton.1 hother] at hle ⊢
      exact Nat.le_of_lt (hless hle)
  last index' other hplace hsame := by
    rcases Nat.lt_or_ge index' symbols.length with hfront | hback
    · rw [List.getElem?_append_left hfront] at hplace
      exact h.last index' other hplace hsame
    · rw [List.getElem?_append_right hback] at hplace
      obtain rfl := List.mem_singleton.1 (List.mem_of_getElem? hplace)
      have hnot := h.notAbove
      have hlt := hless (by omega)
      omega

/-- One step of the walk: a further symbol becomes the best one, or leaves it as it is. -/
theorem answers_concat (h : Answers symbols address result) :
    Answers (symbols ++ [symbol]) address
      (if symbol.address ≤ address then later result symbol else result) := by
  cases result with
  | none =>
    split
    · rename_i hle
      refine ⟨_, owns_concat_length hle fun other hother hle' => ?_⟩
      exact absurd (h other hother) (Nat.not_lt.2 hle')
    · rename_i habove
      intro other hother
      rcases List.mem_append.1 hother with hother | hother
      · exact h other hother
      · rw [List.mem_singleton.1 hother]
        exact Nat.not_le.1 habove
  | some owner =>
    obtain ⟨index, howns⟩ := h
    rw [later]
    split
    · rename_i hle
      split
      · rename_i hover
        refine ⟨_, owns_concat_length hle fun other hother hle' => ?_⟩
        exact Nat.le_trans (howns.greatest other hother hle') hover
      · rename_i hunder
        exact ⟨_, howns.concat fun _ => Nat.not_le.1 hunder⟩
    · rename_i habove
      exact ⟨_, howns.concat fun hle => absurd hle habove⟩

theorem answers_foldl {seen rest : List Symbol} (h : Answers seen address result) :
    Answers (seen ++ rest) address (rest.foldl
      (fun best symbol => if symbol.address ≤ address then later best symbol else best) result) := by
  induction rest generalizing seen result with
  | nil => rwa [List.append_nil]
  | cons symbol rest ih =>
    rw [List.foldl_cons, List.append_cons]
    exact ih (answers_concat h)

theorem answers_lookupUnsorted (symbols : List Symbol) (address : Nat) :
    Answers symbols address (lookupUnsorted symbols.toArray address) := by
  have hnone : Answers [] address none := fun _ hmem => absurd hmem List.not_mem_nil
  rw [lookupUnsorted, List.foldl_toArray]
  exact answers_foldl hnone

/-! ## The search among ascending addresses -/

theorem Ascends.le (h : (ofList symbols).Ascends) {i j : Nat} (hj : j < symbols.length) (hij : i ≤ j) :
    symbols[i].address ≤ symbols[j].address := by
  rcases Nat.eq_or_lt_of_le hij with rfl | hlt
  · exact Nat.le_refl _
  · have hpairwise : symbols.Pairwise (·.address ≤ ·.address) := List.pairwise_map.1 h
    exact List.pairwise_iff_getElem.1 hpairwise i j (by omega) hj hlt

/-- Where ascending addresses are cut in two, the last symbol in front of the cut owns the address. -/
theorem answers_of_brackets (hascends : (ofList symbols).Ascends) {cut : Nat} :
    Brackets (fun symbol => decide (symbol.address ≤ address)) symbols.toArray cut cut →
    Answers symbols address
      (match cut with
      | 0 => none
      | index + 1 => symbols.toArray[index]?) := by
  rintro ⟨-, hin, hfront, hback⟩
  simp only [List.size_toArray, List.getElem_toArray, decide_eq_true_eq, decide_eq_false_iff_not,
    Nat.not_le] at hin hfront hback
  cases cut with
  | zero =>
    intro symbol hmem
    obtain ⟨i, hi, rfl⟩ := List.getElem_of_mem hmem
    exact hback i hi (Nat.zero_le _)
  | succ index =>
    have hbefore : ∀ i (hi : i < symbols.length), symbols[i].address ≤ address → i ≤ index := by
      intro i hi hpass
      rcases Nat.lt_or_ge index i with hlt | hge
      · exact absurd (hback i hi hlt) (Nat.not_lt.2 hpass)
      · exact hge
    have hindex : index < symbols.length := hin
    have hpass := hfront index hindex (Nat.lt_succ_self _)
    simp only [List.getElem?_toArray, List.getElem?_eq_getElem hindex]
    refine ⟨index, List.getElem?_eq_getElem hindex, hpass, fun other hother hle => ?_, ?_⟩
    · obtain ⟨i, hi, rfl⟩ := List.getElem_of_mem hother
      exact hascends.le hindex (hbefore i hi hle)
    · intro index' other hplace hsame
      obtain ⟨hi, rfl⟩ := List.getElem?_eq_some_iff.1 hplace
      exact hbefore index' hi (hsame ▸ hpass)

theorem answers_lookupSorted (hascends : (ofList symbols).Ascends) (address : Nat) :
    Answers symbols address (lookupSorted symbols.toArray address) := by
  refine answers_of_brackets hascends (brackets_partitionPoint (fun i j hj hij hpass => ?_) ?_)
  · simp only [List.getElem_toArray, decide_eq_true_eq] at hpass ⊢
    exact Nat.le_trans (hascends.le (by simpa using hj) hij) hpass
  · exact ⟨Nat.zero_le _, Nat.le_refl _, fun i _ hi => absurd hi (Nat.not_lt_zero _),
      fun i hi hge => absurd hi (Nat.not_lt.2 hge)⟩

theorem answers_lookup (symbols : List Symbol) (address : Nat) :
    Answers symbols address ((ofList symbols).lookup address) := by
  unfold lookup
  split
  · rename_i hsorted
    exact answers_lookupSorted ((isSorted_iff_ascends.2 (isMade_ofArray _)).1 hsorted) address
  · exact answers_lookupUnsorted symbols address

end SymbolTable

open SymbolTable

/-- **A look-up finds the symbol that an address belongs to**, in a table of any symbols: none if all are
above the address, and otherwise the last of those with the greatest address that is not. Walking over all
symbols finds it in any order, halving finds it if the addresses ascend, and so both find the same. -/
theorem lookup_finds_owner (symbols : List Symbol) (address : Nat) :
    Finds symbols address ((ofList symbols).lookup address) ∧
    Finds symbols address (lookupUnsorted symbols.toArray address) ∧
    ((ofList symbols).Ascends →
      Finds symbols address (lookupSorted symbols.toArray address) ∧
      lookupSorted symbols.toArray address = lookupUnsorted symbols.toArray address) := by
  refine ⟨(answers_lookup symbols address).finds, (answers_lookupUnsorted symbols address).finds, ?_⟩
  intro hascends
  have hsorted := answers_lookupSorted hascends address
  exact ⟨hsorted.finds, hsorted.unique (answers_lookupUnsorted symbols address)⟩

/-- Two functions start at the lowest address and two at the greatest; of both pairs the second is found,
and the second of the first pair also right below the greatest address. -/
theorem lookup_finds_owner_equal_addresses :
    let greatest := wordLimit - 1
    let symbols : List Symbol := [⟨"a", 0, none⟩, ⟨"b", 0, none⟩, ⟨"c", greatest, none⟩, ⟨"d", greatest, none⟩]
    (ofList symbols).Ascends ∧
    lookupSorted symbols.toArray 0 = some ⟨"b", 0, none⟩ ∧
    lookupSorted symbols.toArray greatest = some ⟨"d", greatest, none⟩ ∧
    ∃ index, Owns symbols (greatest - 1) index ⟨"b", 0, none⟩ := by
  intro greatest symbols
  have hascends : (ofList symbols).Ascends := isAscending_iff.1 (by decide)
  have hsame address := ((lookup_finds_owner symbols address).2.2 hascends).2
  have hbelow : lookupUnsorted symbols.toArray (greatest - 1) = some ⟨"b", 0, none⟩ := by decide
  exact ⟨hascends, (hsame 0).trans (by decide), (hsame greatest).trans (by decide),
    ((lookup_finds_owner symbols (greatest - 1)).2.1.2 _).1 hbelow⟩

end Unstrip
