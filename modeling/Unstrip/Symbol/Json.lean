import Unstrip.Json.Printer
import Unstrip.Json.Record
import Unstrip.Symbol.Table

/-!
# Symbol tables as JSON

A table is written as the list of its symbols, a symbol as an object with the members `name`,
`address` and, only if it is set, `meta_address`. Reading a table finds out anew whether it is
sorted.
-/

namespace Unstrip

namespace Symbol

def toJson (symbol : Symbol) : Json :=
  let required := [("name", Json.quoted symbol.name), ("address", Json.numeral symbol.address)]
  match symbol.metadataAddress with
  | some address => .object (required ++ [("meta_address", .numeral address)])
  | none => .object required

structure Draft where
  name : Option String := none
  address : Option Nat := none
  metadataAddress : Option (Option Nat) := none

def jsonFields : List (Json.RecordField Draft) :=
  [ { key := "name"
      isSet := fun draft => draft.name.isSome
      read := fun draft text => do
        let (name, text) ← Json.readText text
        return ({ draft with name := some name }, text) },
    { key := "address"
      isSet := fun draft => draft.address.isSome
      read := fun draft text => do
        let (address, text) ← Json.readNumber text
        return ({ draft with address := some address }, text) },
    { key := "meta_address"
      isSet := fun draft => draft.metadataAddress.isSome
      read := fun draft text => do
        let (address, text) ← Json.readOption Json.readNumber text
        return ({ draft with metadataAddress := some address }, text) } ]

/-- The symbol that a draft has become; name and address are required. -/
def ofDraft? (draft : Draft) : Option Symbol := do
  return ⟨← draft.name, ← draft.address, draft.metadataAddress.join⟩

def readJson : Json.Scanner Symbol := Json.readRecord jsonFields {} ofDraft?

end Symbol

namespace SymbolTable

def toJson (table : SymbolTable) : Json := .array (table.toList.map Symbol.toJson)

def toJsonText (table : SymbolTable) : String := table.toJson.compact

def ofJsonText (text : String) : Except Json.Defect SymbolTable := do
  let symbols ← Json.parse (Json.readList Symbol.readJson) text
  return ofList symbols

end SymbolTable

end Unstrip
