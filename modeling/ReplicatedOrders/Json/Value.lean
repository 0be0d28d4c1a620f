/-
JSON values: what a text means once order and repetition of object keys are settled.

The members of an object stand in rising order of their keys, by Unicode scalar value, each key once. `Value.put` keeps
that: a key that is there gets the new value. `textual` turns every leaf except `null` into text: numbers in decimal
digits (a real number as its nearest integer), booleans as words.
-/
import ReplicatedOrders.Json.Number

namespace ReplicatedOrders.Json

inductive Value where
  | null
  | bool (b : Bool)
  | number (n : Number)
  | text (s : String)
  | array (items : List Value)
  | object (members : List (String × Value))
deriving Inhabited, Repr

/-- the members of an object -/
abbrev Members := List (String × Value)

namespace Value

def isNull : Value → Bool
  | null => true
  | _ => false

/-- the members of an object, or nothing for another value -/
def members? : Value → Option Members
  | object ms => some ms
  | _ => none

def text? : Value → Option String
  | text s => some s
  | _ => none

/-- levels of arrays and objects around the deepest leaf -/
def depth : Value → Nat
  | array vs => depthItems vs + 1
  | object ms => depthMembers ms + 1
  | _ => 0
where
  depthItems : List Value → Nat
    | [] => 0
    | v :: vs => max (depth v) (depthItems vs)
  depthMembers : List (String × Value) → Nat
    | [] => 0
    | (_, v) :: ms => max (depth v) (depthMembers ms)

end Value

/-! ## Members -/

namespace Members

/-- set the value of a key, keeping the keys in order -/
def put (key : String) (v : Value) : Members → Members
  | [] => [(key, v)]
  | (k, w) :: ms =>
    if key < k then (key, v) :: (k, w) :: ms
    else if key = k then (key, v) :: ms
    else (k, w) :: put key v ms

def get? (ms : Members) (key : String) : Option Value := ms.lookup key

/-- members in any order, the last value of a repeated key -/
def ofList (ms : List (String × Value)) : Members := ms.foldl (fun acc m => put m.1 m.2 acc) []

/-- keys in strictly rising order -/
def Rising (ms : Members) : Prop := ms.Pairwise fun a b => a.1 < b.1

end Members

/-! ## Text for every leaf -/

/-- a number in decimal digits, a real number as its nearest integer -/
def Number.digits : Number → String
  | whole n => toString n.val
  | real x => x.wholeText

namespace Value

mutual

/-- every leaf except `null` as text -/
def textual : Value → Value
  | null => null
  | bool b => text (if b then "true" else "false")
  | number n => text n.digits
  | text s => text s
  | array vs => array (textualItems vs)
  | object ms => object (textualMembers ms)

def textualItems : List Value → List Value
  | [] => []
  | v :: vs => textual v :: textualItems vs

def textualMembers : List (String × Value) → List (String × Value)
  | [] => []
  | (k, v) :: ms => (k, textual v) :: textualMembers ms

end

theorem textualItems_eq_map (vs : List Value) : textualItems vs = vs.map textual := by
  induction vs with
  | nil => rfl
  | cons v vs ih => simp [textualItems, ih]

theorem textualMembers_eq_map (ms : Members) : textualMembers ms = ms.map fun m => (m.1, textual m.2) := by
  induction ms with
  | nil => rfl
  | cons m ms ih => simp [textualMembers, ih]

end Value

end ReplicatedOrders.Json
