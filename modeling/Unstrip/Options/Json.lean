import Unstrip.Json.Record
import Unstrip.Options

/-!
# Options as JSON

Options are read from an object with the members `max_name_length`, `allow_partial` and `workers`,
or from a list of these in order. What is missing takes its default.
-/

namespace Unstrip.Options

structure Draft where
  nameCap : Option Nat := none
  allowPartial : Option Bool := none
  workers : Option Nat := none

def jsonFields : List (Json.RecordField Draft) :=
  [ { key := "max_name_length"
      isSet := fun draft => draft.nameCap.isSome
      read := fun draft text => do
        let (nameCap, text) ← Json.readNumber text
        return ({ draft with nameCap := some nameCap }, text) },
    { key := "allow_partial"
      isSet := fun draft => draft.allowPartial.isSome
      read := fun draft text => do
        let (allowPartial, text) ← Json.readBool text
        return ({ draft with allowPartial := some allowPartial }, text) },
    { key := "workers"
      isSet := fun draft => draft.workers.isSome
      read := fun draft text => do
        let (workers, text) ← Json.readNumber text
        return ({ draft with workers := some workers }, text) } ]

def ofDraft (draft : Draft) : Options :=
  let default : Options := {}
  { nameCap := draft.nameCap.getD default.nameCap
    allowPartial := draft.allowPartial.getD default.allowPartial
    workers := draft.workers.getD default.workers }

def ofJsonText (text : String) : Except Json.Defect Options :=
  Json.parse (Json.readRecord jsonFields {} fun draft => some (ofDraft draft)) text

end Unstrip.Options
