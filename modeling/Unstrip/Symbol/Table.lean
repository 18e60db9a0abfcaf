/-!
# Symbol tables

A `Symbol` is a recovered function, and a `SymbolTable` holds symbols in the order of the
records. Linkers emit ascending addresses, so a table remembers whether its addresses ascend;
`lookup` then searches by halving, and otherwise looks at every symbol.
-/

namespace Unstrip

/-- A recovered function. -/
structure Symbol where
  name : String
  /-- Where the function starts, as its descriptor says. -/
  address : Nat
  /-- Where the function starts according to its metadata record, if that differs. -/
  metadataAddress : Option Nat := none
  deriving DecidableEq, Repr

def Symbol.agrees (symbol : Symbol) : Bool := symbol.metadataAddress.isNone

/-- Symbols in the order of their records. -/
structure SymbolTable where
  symbols : Array Symbol
  /-- Whether the addresses are known to ascend (equal neighbours are allowed). -/
  isSorted : Bool
  deriving DecidableEq, Repr

/-- Whether no number of the list is above its successor. -/
def isAscending : List Nat → Bool
  | a :: b :: rest => a ≤ b && isAscending (b :: rest)
  | _ => true

/-- A list ascends if each number is at most every later one. -/
theorem isAscending_iff {numbers : List Nat} :
    isAscending numbers = true ↔ numbers.Pairwise (· ≤ ·) := by
  induction numbers with
  | nil => simp [isAscending]
  | cons a rest ih =>
    cases rest with
    | nil => simp [isAscending]
    | cons b rest =>
      rw [isAscending, Bool.and_eq_true, ih, decide_eq_true_iff, List.pairwise_cons (a := a)]
      constructor
      · rintro ⟨hab, h⟩
        refine ⟨fun c hc => ?_, h⟩
        rcases List.mem_cons.1 hc with rfl | hc
        · exact hab
        · exact Nat.le_trans hab (List.rel_of_pairwise_cons h hc)
      · exact fun ⟨hall, h⟩ => ⟨hall b List.mem_cons_self, h⟩

/-- The first index from `low` on whose item fails the test, if the items below `high` that pass
stand before those that fail; found by halving. -/
def partitionPoint {α : Type} (test : α → Bool) (items : Array α) (low high : Nat) : Nat :=
  if low < high then
    let middle := (low + high) / 2
    match items[middle]? with
    | none => low
    | some item =>
      if test item then partitionPoint test items (middle + 1) high
      else partitionPoint test items low middle
  else low
termination_by high - low

namespace SymbolTable

def ofArray (symbols : Array Symbol) : SymbolTable :=
  ⟨symbols, isAscending (symbols.toList.map (·.address))⟩

def ofList (symbols : List Symbol) : SymbolTable := ofArray symbols.toArray

/-- The table that stands for no result: it has no symbols, and nothing is known about their
order. -/
def blank : SymbolTable := ⟨#[], false⟩

def toList (table : SymbolTable) : List Symbol := table.symbols.toList

def size (table : SymbolTable) : Nat := table.symbols.size

def isEmpty (table : SymbolTable) : Bool := table.symbols.isEmpty

def get? (table : SymbolTable) (index : Nat) : Option Symbol := table.symbols[index]?

/-- Of the symbols that are not above `address`, the one with the greatest address; of several,
the last. Found by halving an ascending table. -/
def lookupSorted (symbols : Array Symbol) (address : Nat) : Option Symbol :=
  match partitionPoint (fun symbol => symbol.address ≤ address) symbols 0 symbols.size with
  | 0 => none
  | index + 1 => symbols[index]?

/-- Keeps the later of two symbols unless it has the smaller address. -/
def later (best : Option Symbol) (symbol : Symbol) : Option Symbol :=
  match best with
  | some other => if other.address ≤ symbol.address then some symbol else best
  | none => some symbol

/-- Of the symbols that are not above `address`, the one with the greatest address; of several,
the last. Found by looking at all of them. -/
def lookupUnsorted (symbols : Array Symbol) (address : Nat) : Option Symbol :=
  symbols.foldl (fun best symbol => if symbol.address ≤ address then later best symbol else best)
    none

/-- The function whose code holds `address`: of the symbols that are not above it, the one with
the greatest address, and of several the last. -/
def lookup (table : SymbolTable) (address : Nat) : Option Symbol :=
  if table.isSorted then lookupSorted table.symbols address
  else lookupUnsorted table.symbols address

/-- The first symbol with exactly this name. -/
def find? (table : SymbolTable) (name : String) : Option Symbol :=
  table.symbols.find? (·.name == name)

/-- The symbols whose metadata record disagrees with their descriptor, in order. -/
def inconsistent (table : SymbolTable) : List Symbol :=
  table.toList.filter fun symbol => ! symbol.agrees

/-! ## Tables of symbols -/

section
variable {table : SymbolTable} {symbols : Array Symbol}

@[simp] theorem length_toList : table.toList.length = table.size := Array.length_toList

@[simp] theorem toList_blank : blank.toList = [] := rfl

@[simp] theorem size_blank : blank.size = 0 := rfl

@[simp] theorem toList_ofArray : (ofArray symbols).toList = symbols.toList := rfl

@[simp] theorem size_ofArray : (ofArray symbols).size = symbols.size := rfl

/-- The addresses ascend in the order of the symbols; equal neighbours are allowed. -/
def Ascends (table : SymbolTable) : Prop := (table.toList.map (·.address)).Pairwise (· ≤ ·)

@[simp] theorem isSorted_ofArray : (ofArray symbols).isSorted = true ↔ (ofArray symbols).Ascends :=
  isAscending_iff

/-- A table is made from symbols if it holds them, and its flag is right. -/
theorem eq_ofArray_iff :
    table = ofArray symbols ↔ table.toList = symbols.toList ∧ (table.isSorted = true ↔ table.Ascends) := by
  constructor
  · rintro rfl
    exact ⟨rfl, isSorted_ofArray⟩
  · rintro ⟨hsymbols, hsorted⟩
    obtain ⟨found, isSorted⟩ := table
    obtain rfl : found = symbols := Array.toList_inj.1 hsymbols
    have hflag : isSorted = true ↔ isAscending (found.toList.map (·.address)) = true :=
      hsorted.trans isAscending_iff.symm
    rw [ofArray, Bool.eq_iff_iff.2 hflag]

end

end SymbolTable

end Unstrip
