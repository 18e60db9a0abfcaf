import Mathlib.Control.Monad.Basic
import Unstrip.Proofs.Json.Record
import Unstrip.Proofs.Json.Writing
import Unstrip.Symbol.Json

/-!
# Symbol tables survive JSON

A table is written without its flag, a symbol without an address that is not set, and names with escapes.
Reading undoes all of that: it takes every spelling of a table to this table (`ofJsonText_of_spelledBy`), and
what it takes from any text can be written again (`exists_of_ofJsonText`). Main statement:
`json_round_trips`.
-/

namespace Unstrip

open Json

namespace Symbol

variable {symbol : Symbol}

/-- Both addresses have at most 64 bits. -/
structure HasWords (symbol : Symbol) : Prop where
  address : symbol.address < wordLimit
  metadataAddress : ∀ address ∈ symbol.metadataAddress, address < wordLimit

/-- The members of a symbol fill a draft that is finished as this symbol. -/
theorem HasWords.reads_readJson (h : symbol.HasWords) : Reads readJson symbol.toJson symbol := by
  obtain ⟨name, address, metadataAddress⟩ := symbol
  have hname : jsonFields[0].Takes (.quoted name) {} { name := some name } :=
    ⟨rfl, (reads_readText name).map fun name => ({ name := some name } : Draft)⟩
  have haddress : jsonFields[1].Takes (.numeral address) { name := some name }
      { name := some name, address := some address } :=
    ⟨rfl, (reads_readNumber h.address).map fun address =>
      ({ name := some name, address := some address } : Draft)⟩
  cases metadataAddress with
  | none => exact reads_readRecord (.cons rfl hname (.cons rfl haddress .nil)) rfl
  | some other =>
    have hother : jsonFields[2].Takes (.numeral other) { name := some name, address := some address }
        { name := some name, address := some address, metadataAddress := some (some other) } :=
      ⟨rfl, (reads_readNumber (h.metadataAddress other rfl)).readOption.map fun found =>
        ({ name := some name, address := some address, metadataAddress := some found } : Draft)⟩
    exact reads_readRecord (.cons rfl hname (.cons rfl haddress (.cons rfl hother .nil))) rfl

/-- The numbers in a draft have at most 64 bits. -/
structure Draft.HasWords (draft : Draft) : Prop where
  address : ∀ address ∈ draft.address, address < wordLimit
  metadataAddress : ∀ found ∈ draft.metadataAddress, ∀ address ∈ found, address < wordLimit

theorem keeps_hasWords : ∀ field ∈ jsonFields, field.Keeps Draft.HasWords := by
  have htrue : Ensures readText fun _ => True := fun _ _ _ _ => trivial
  refine List.forall_mem_cons.2 ⟨?name, List.forall_mem_cons.2 ⟨?address,
    List.forall_mem_singleton.2 ?metadata⟩⟩
  case name =>
    exact fun draft hdraft => htrue.map (fun name => { draft with name := some name }) fun _ _ =>
      ⟨hdraft.address, hdraft.metadataAddress⟩
  case address =>
    refine fun draft hdraft => ensures_readNumber.map (fun n => { draft with address := some n }) fun n hn =>
      ⟨?_, hdraft.metadataAddress⟩
    rintro _ ⟨rfl⟩
    exact hn
  case metadata =>
    refine fun draft hdraft => ensures_readNumber.readOption.map
      (fun found => { draft with metadataAddress := some found }) fun found hfound => ⟨hdraft.address, ?_⟩
    rintro _ ⟨rfl⟩
    exact hfound

/-- The addresses of every symbol that is read have at most 64 bits. -/
theorem ensures_readJson : Ensures readJson HasWords := by
  intro text rest symbol h
  have hstart : Draft.HasWords {} := ⟨nofun, nofun⟩
  obtain ⟨⟨name, address, metadataAddress⟩, hdraft, hfinish⟩ := ensures_readRecord hstart keeps_hasWords h
  cases name with
  | none => cases hfinish
  | some name =>
    cases address with
    | none => cases hfinish
    | some address =>
      cases hfinish
      refine ⟨hdraft.address address rfl, fun other hother => ?_⟩
      obtain ⟨found, rfl, rfl⟩ := Option.join_eq_some_iff.1 hother
      exact hdraft.metadataAddress _ rfl other rfl

end Symbol

namespace SymbolTable

/-- However a table is spelled, it is read back, and its flag is worked out again. -/
theorem ofJsonText_of_spelledBy {symbols : List Symbol} (h : ∀ symbol ∈ symbols, symbol.HasWords)
    {text : String} (htext : (ofList symbols).toJson.SpelledBy text) :
    ofJsonText text = .ok (ofList symbols) := by
  have hread := (reads_readList fun symbol hsymbol => (h symbol hsymbol).reads_readJson).parse htext
  rw [ofJsonText, hread]
  rfl

/-- A table that is read consists of symbols whose addresses have at most 64 bits. -/
theorem exists_of_ofJsonText {text : String} {table : SymbolTable} (h : ofJsonText text = .ok table) :
    ∃ symbols, table = ofList symbols ∧ ∀ symbol ∈ symbols, symbol.HasWords := by
  obtain ⟨symbols, hparse, h⟩ := bind_eq_ok_iff.1 h
  exact ⟨symbols, pure_eq_ok_iff.1 h, Symbol.ensures_readJson.readList.parse hparse⟩

/-- **Tables survive JSON.** The text of a table stands for the list of its symbols, and every text that
stands for this list, this one included, is read as the same table. So writing and reading what has been
read changes neither the table nor the text. -/
theorem json_round_trips :
    (∀ symbols : List Symbol, (∀ symbol ∈ symbols, symbol.HasWords) →
      (ofList symbols).toJson.SpelledBy (ofList symbols).toJsonText ∧
      (∀ text, (ofList symbols).toJson.SpelledBy text → ofJsonText text = .ok (ofList symbols)) ∧
      ofJsonText (ofList symbols).toJsonText = .ok (ofList symbols)) ∧
    (∀ text table, ofJsonText text = .ok table →
      ofJsonText table.toJsonText = .ok table ∧
      (ofJsonText table.toJsonText).map toJsonText = .ok table.toJsonText) := by
  have hmade : ∀ symbols : List Symbol, (∀ symbol ∈ symbols, symbol.HasWords) →
      ofJsonText (ofList symbols).toJsonText = .ok (ofList symbols) :=
    fun symbols h => ofJsonText_of_spelledBy h (spelledBy_compact _)
  constructor
  · exact fun symbols h => ⟨spelledBy_compact _, fun text => ofJsonText_of_spelledBy h, hmade symbols h⟩
  · intro text table h
    obtain ⟨symbols, rfl, hwords⟩ := exists_of_ofJsonText h
    have hread := hmade symbols hwords
    exact ⟨hread, by rw [hread]; rfl⟩

/-- A name with escapes of all kinds survives, and so does the greatest address. The second text gives one
symbol as a list and one with its members in another order: the table that is read is written differently. -/
theorem json_round_trips_escaped :
    let symbols : List Symbol := [⟨"\"\\\n\x01\x7fé", 0xffffffffffffffff, some 0⟩, ⟨"", 0, none⟩]
    let text := "[ [\"f\", 2, null], \x7b\"address\": 1, \"name\": \"\\u0067\"\x7d ]"
    let table : SymbolTable := ofList [⟨"f", 2, none⟩, ⟨"g", 1, none⟩]
    (∀ symbol ∈ symbols, symbol.HasWords) ∧
      ofJsonText (ofList symbols).toJsonText = .ok (ofList symbols) ∧
      ofJsonText text = .ok table ∧ table.toJsonText ≠ text ∧ ofJsonText table.toJsonText = .ok table := by
  intro symbols text table
  have hwords : ∀ symbol ∈ symbols, symbol.HasWords :=
    List.forall_mem_cons.2 ⟨⟨by decide, by decide⟩, List.forall_mem_singleton.2 ⟨by decide, by decide⟩⟩
  have hread : ofJsonText text = .ok table := by decide +kernel
  refine ⟨hwords, (json_round_trips.1 symbols hwords).2.2, hread, by decide +kernel, ?_⟩
  exact (json_round_trips.2 text table hread).1

end SymbolTable

end Unstrip
