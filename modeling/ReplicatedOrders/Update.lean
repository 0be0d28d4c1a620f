/-
Updates: the payloads of the update stream.

A payload is a JSON object; every field is read from its textual form, so a number or a boolean is as good as a string
there. A deletion looks at nothing but the hash. Otherwise an update with off-chain data is an upsert, and one without
is skipped.
-/
import ReplicatedOrders.Order.Wire
import ReplicatedOrders.Text.Blank

namespace ReplicatedOrders

/-- the fields of a payload that an update may complain about -/
inductive UpdateField where
  | orderHash
  | deleted
  | orderBookName
deriving DecidableEq, Repr

namespace UpdateField

def name : UpdateField → String
  | orderHash => Order.hashField
  | deleted => "deleted"
  | orderBookName => Order.bookField

/-- what the field should have been -/
def expected : UpdateField → String
  | orderHash => "string"
  | deleted => "string or boolean"
  | orderBookName => "string"

end UpdateField

/-- why a payload is not an update -/
inductive UpdateError where
  | json (cause : Json.JsonError)
  | notAnObject
  | missingOrderHash
  | invalidField (field : UpdateField)

namespace UpdateError

def message? : UpdateError → Option String
  | json _ => none
  | notAnObject => some "Update payload is not a JSON object"
  | missingOrderHash => some ("Update is missing " ++ UpdateField.orderHash.name)
  | invalidField f => some ("Field '" ++ f.name ++ "' has unexpected type, expected " ++ f.expected)

end UpdateError

/-- the fields of an update; a deletion has neither name nor data -/
structure Update where
  hash : String
  bookName : Option String
  offChainData : Option Json.Value
  deleted : Bool
deriving Repr

/-- what an update does to the order of its hash -/
inductive Action where
  | delete (hash : String)
  | upsert (hash : String) (bookName : Option String) (offChainData : Json.Value)
  | skip (hash : String)
deriving Repr

namespace Action

def hash : Action → String
  | delete h => h
  | upsert h _ _ => h
  | skip h => h

end Action

namespace Update

open Json

/-- the text of a leaf field: absent and null are the same, and an array or object is an error -/
def leaf (ms : Members) (f : UpdateField) : Except UpdateError (Option String) :=
  match ms.get? f.name with
  | none | some .null => .ok none
  | some v =>
    match v.textual with
    | .text s => .ok (some s)
    | _ => .error (.invalidField f)

/-- the word for a deletion, in any ASCII case -/
def marksDeletion (flag : String) : Bool := Text.lower flag == "true"

def ofMembers (ms : Members) : Except UpdateError Update := do
  let hash ← leaf ms .orderHash
  match hash with
  | none | some "" => throw .missingOrderHash
  | some hash =>
    let deleted ← leaf ms .deleted
    if deleted.any marksDeletion then return ⟨hash, none, none, true⟩
    else
      let bookName ← leaf ms .orderBookName
      let data := (ms.get? Order.offChainField).map Value.textual
      return ⟨hash, bookName.filter (· ≠ ""), data.filter fun v => !v.isNull, false⟩

def decode (payload : String) : Except UpdateError Update :=
  match Json.decode Decoder.value payload with
  | .error e => .error (.json e)
  | .ok (.object ms) => ofMembers ms
  | .ok _ => .error .notAnObject

def action (u : Update) : Action :=
  if u.deleted then .delete u.hash
  else match u.offChainData with
    | some data => .upsert u.hash u.bookName data
    | none => .skip u.hash

end Update

end ReplicatedOrders
