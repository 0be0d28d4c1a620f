/-
Decoding typed records from JSON documents.

A decoder walks over a document in written order and stops at the first fault, so a fault of form
(`JsonError.malformed`) is reported only if no fault of shape stands before it. A record is an object, in which known
keys stand once and unknown ones are skipped whatever their values are, or the array of its fields in order, in which
a missing tail takes its defaults. Arrays, objects and records nest at most `maxDepth` levels in what is read; skipped
values may nest deeper.
-/
import ReplicatedOrders.Json.Compact
import ReplicatedOrders.Text.Position
import ReplicatedOrders.Text.Quoted

namespace ReplicatedOrders.Json

/-- arrays and objects nest at most this deep -/
def maxDepth : Nat := 127

/-! ## Faults -/

/-- what a decoder met -/
inductive Found where
  | null
  | bool (b : Bool)
  | number (n : Number)
  | text (s : String)
  | array
  | object
deriving DecidableEq, Repr

/-- what a decoder wants -/
inductive Wanted where
  | text
  | int64
  | map
  | record (name : String)
deriving DecidableEq, Repr

/-- a well-formed text of the wrong shape -/
inductive ShapeError where
  | mismatch (found : Found) (wanted : Wanted)
  | notInt64 (n : Int)
  | duplicateField (name : String)
  | missingField (name : String)
  | missingItem (count : Nat) (record : String) (size : Nat)
  /-- a text that is no entry id -/
  | entryId (text : String)
  | amountNumeral (text : String) (error : NumeralError)
  | amountShape (value : Value)

/-- why a text is not decoded -/
inductive JsonError where
  | malformed
  | shape (e : ShapeError)

namespace Found

def describe : Found → String
  | null => "null"
  | bool b => "boolean `" ++ (if b then "true" else "false") ++ "`"
  | number (.whole n) => "integer `" ++ toString n.val ++ "`"
  | number (.real x) => "floating point `" ++ x.text realStyle ++ "`"
  | text s => "string " ++ Text.quoted s
  | array => "sequence"
  | object => "map"

end Found

namespace Wanted

def describe : Wanted → String
  | text => "a string"
  | int64 => "i64"
  | map => "a map"
  | record name => "struct " ++ name

end Wanted

namespace ShapeError

/-- the text of a fault without its position; of all faults only a text that is no entry id can itself end in a position
clause -/
def message : ShapeError → String
  | mismatch found wanted => "invalid type: " ++ found.describe ++ ", expected " ++ wanted.describe
  | notInt64 n => "invalid value: integer `" ++ toString n ++ "`, expected i64"
  | duplicateField name => "duplicate field `" ++ name ++ "`"
  | missingField name => "missing field `" ++ name ++ "`"
  | missingItem count record size =>
    "invalid length " ++ toString count ++ ", expected struct " ++ record ++ " with " ++ toString size ++ " elements"
  | entryId text => Text.withoutPosition ("Invalid stream entry ID: " ++ text)
  | amountNumeral text e => "invalid unsigned integer '" ++ text ++ "': " ++ e.message
  | amountShape v => "expected unsigned integer, got " ++ v.compact

end ShapeError

/-! ## Decoders -/

/-- decodes a document that may nest so many more levels -/
abbrev Decoder (α : Type) := Nat → Doc → Except JsonError α

def fault {α : Type} (e : ShapeError) : Except JsonError α := .error (.shape e)

/-- the fault of a document where something else is wanted -/
def mismatch {α : Type} (wanted : Wanted) : Doc → Except JsonError α
  | .null => fault (.mismatch .null wanted)
  | .bool b => fault (.mismatch (.bool b) wanted)
  | .number n => fault (.mismatch (.number n) wanted)
  | .text s => fault (.mismatch (.text s) wanted)
  | .array _ => fault (.mismatch .array wanted)
  | .object _ => fault (.mismatch .object wanted)
  | .unreadable | .cut => .error .malformed

namespace Decoder

def text : Decoder String
  | _, .text s => .ok s
  | _, d => mismatch .text d

def int64 : Decoder Int64
  | _, .number (.whole n) => if n.val < 9223372036854775808 then .ok (Int64.ofInt n.val) else fault (.notInt64 n.val)
  | _, d => mismatch .int64 d

/-- any value -/
def value : Decoder Value := fun levels d => (d.value? levels).elim (.error .malformed) .ok

/-- read `null` as nothing -/
def nullable {α : Type} (decode : Decoder α) : Decoder (Option α)
  | _, .null => .ok none
  | levels, d => (decode levels d).map some

/-- members of a map in written order, with the keys that have a text -/
def mapMembers {α : Type} (decode : Decoder α) (levels : Nat) :
    List (Option String × Doc) → Except JsonError (List (String × α))
  | [] => .ok []
  | (none, _) :: _ => .error .malformed
  | (some key, d) :: ms => do
    let a ← decode levels d
    let rest ← mapMembers decode levels ms
    return (key, a) :: rest

/-- a map from any keys; a repeated key is listed again -/
def map {α : Type} (decode : Decoder α) : Decoder (List (String × α))
  | 0, .object _ => .error .malformed
  | levels + 1, .object ms => mapMembers decode levels ms
  | _, d => mismatch .map d

end Decoder

/-! ## Records -/

/-- a field of a record that is being read: nothing yet, or its value -/
abbrev Slot (α : Type) := Option α

/-- read a field that may stand once -/
def Slot.read {α : Type} (slot : Slot α) (name : String) (decode : Decoder α) (levels : Nat) (d : Doc) :
    Except JsonError (Slot α) :=
  match slot with
  | some _ => fault (.duplicateField name)
  | none => (decode levels d).map some

/-- the value of a field without a default -/
def Slot.required {α : Type} (slot : Slot α) (name : String) : Except JsonError α :=
  match slot with
  | some a => .ok a
  | none => fault (.missingField name)

/-- skip an unknown field -/
def skip {α : Type} (a : α) (d : Doc) : Except JsonError α :=
  if d.wellFormed then .ok a else .error .malformed

/-- read the members of a record one after the other -/
def readMembers {σ : Type} (field : σ → String → Doc → Except JsonError σ) :
    σ → List (Option String × Doc) → Except JsonError σ
  | s, [] => .ok s
  | _, (none, _) :: _ => .error .malformed
  | s, (some key, d) :: ms => do
    let s' ← field s key d
    readMembers field s' ms

/-- the items of a record that is written as an array, not yet read -/
abbrev Items (α : Type) := StateT (List Doc) (Except JsonError) α

namespace Items

/-- the next field, or what stands for it if the items are used up -/
def nextOr {α : Type} (missing : Except JsonError α) (decode : Decoder α) (levels : Nat) : Items α
  | [] => missing.map (·, [])
  | d :: ds => (decode levels d).map (·, ds)

/-- all items, of which none may be left over -/
def run {α : Type} (items : Items α) (ds : List Doc) : Except JsonError α :=
  match items ds with
  | .ok (a, []) => .ok a
  | .ok (_, _ :: _) => .error .malformed
  | .error e => .error e

end Items

/-- a record from an object or from an array of its fields -/
def Decoder.record {α : Type} (name : String) (ofMembers : Nat → List (Option String × Doc) → Except JsonError α)
    (ofItems : Nat → Items α) : Decoder α
  | 0, .object _ | 0, .array _ => .error .malformed
  | levels + 1, .object ms => ofMembers levels ms
  | levels + 1, .array ds => (ofItems levels).run ds
  | _, d => mismatch (.record name) d

/-! ## Whole texts -/

/-- decode a text that holds one document and nothing after it -/
def decode {α : Type} (decoder : Decoder α) (text : String) : Except JsonError α := do
  let (d, rest) := Doc.ofTokens (lex text)
  let a ← decoder maxDepth d
  if rest.isEmpty then return a else throw .malformed

/-- the value of a text -/
def parse? (text : String) : Option Value :=
  match decode Decoder.value text with
  | .ok v => some v
  | .error _ => none

end ReplicatedOrders.Json
