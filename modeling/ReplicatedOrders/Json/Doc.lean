/-
JSON documents: the tree of a text with its members in written order, before any meaning is given to them.

A text that breaks off or goes wrong has a document too: `cut` stands at the place where it does, and every container
that is open there ends with it. So a decoder that walks over the document in order meets the faults of the text in the
order in which a reader of the text meets them, and of two faults reports the first.
- `ofTokens` builds the document as a stack machine: `step` takes one token, `ofTokens` is its run.
- `value?` gives the JSON value of a document that nests at most so many levels.
- `wellFormed`: the form of a value, whatever its depth.
-/
import ReplicatedOrders.Json.Token
import ReplicatedOrders.Json.Value

namespace ReplicatedOrders.Json

inductive Doc where
  | null
  | bool (b : Bool)
  | number (n : Number)
  | text (s : String)
  /-- a string or a number that has no value -/
  | unreadable
  /-- here the text ends or goes wrong -/
  | cut
  | array (items : List Doc)
  /-- a key without a value of its own is `none` -/
  | object (members : List (Option String × Doc))
deriving Inhabited, Repr

/-! ## From tokens to a document -/

/-- a container around the place that is being read, with what it holds so far, latest first -/
inductive Frame where
  | array (before : List Doc)
  | object (before : List (Option String × Doc))
  /-- an object at the value of `key` -/
  | member (before : List (Option String × Doc)) (key : Option String)
deriving Repr

/-- what may come next -/
inductive Need where
  | value
  /-- a value or the end of the array that was just opened -/
  | firstItem
  /-- a comma or the end of the innermost container -/
  | separator
  | key
  /-- a key or the end of the object that was just opened -/
  | firstKey
  | colon
deriving DecidableEq, Repr

/-- what one token leads to -/
inductive Progress where
  | on (need : Need) (frames : List Frame)
  | complete (d : Doc)
  | wrong

/-- the document that ends with `d` inside the open containers -/
def unwind (d : Doc) : List Frame → Doc
  | [] => d
  | .array before :: fs => unwind (.array (before.reverse ++ [d])) fs
  | .object before :: fs => unwind (.object (before.reverse ++ [(none, d)])) fs
  | .member before key :: fs => unwind (.object (before.reverse ++ [(key, d)])) fs

/-- a value is complete -/
def place (d : Doc) : List Frame → Progress
  | [] => .complete d
  | .array before :: fs => .on .separator (.array (d :: before) :: fs)
  | .member before key :: fs => .on .separator (.object ((key, d) :: before) :: fs)
  | .object _ :: _ => .wrong

/-- a token where a value has to start -/
def startValue (frames : List Frame) : Token → Progress
  | .null => place .null frames
  | .bool b => place (.bool b) frames
  | .number n => place (n.elim .unreadable .number) frames
  | .text s => place (s.elim .unreadable .text) frames
  | .openArray => .on .firstItem (.array [] :: frames)
  | .openObject => .on .firstKey (.object [] :: frames)
  | _ => .wrong

/-- a token where a key has to stand -/
def startKey : List Frame → Token → Progress
  | .object before :: fs, .text key => .on .colon (.member before key :: fs)
  | _, _ => .wrong

/-- one token -/
def step : Need → List Frame → Token → Progress
  | .value, fs, t => startValue fs t
  | .firstItem, .array _ :: fs, .closeArray => place (.array []) fs
  | .firstItem, fs, t => startValue fs t
  | .separator, .array before :: fs, .comma => .on .value (.array before :: fs)
  | .separator, .array before :: fs, .closeArray => place (.array before.reverse) fs
  | .separator, .object before :: fs, .comma => .on .key (.object before :: fs)
  | .separator, .object before :: fs, .closeObject => place (.object before.reverse) fs
  | .separator, _, _ => .wrong
  | .firstKey, .object _ :: fs, .closeObject => place (.object []) fs
  | .firstKey, fs, t => startKey fs t
  | .key, fs, t => startKey fs t
  | .colon, fs, .colon => .on .value fs
  | .colon, _, _ => .wrong

/-- run the machine; the tokens after a complete document are left over -/
def build : Need → List Frame → List Token → Doc × List Token
  | _, frames, [] => (unwind .cut frames, [])
  | need, frames, t :: ts =>
    match step need frames t with
    | .on need' frames' => build need' frames' ts
    | .complete d => (d, ts)
    | .wrong => (unwind .cut frames, [])

/-- the document at the start of a list of tokens, and the tokens after it -/
def Doc.ofTokens (ts : List Token) : Doc × List Token := build .value [] ts

/-! ## Meaning -/

namespace Doc

mutual

/-- no fault of form; depth does not matter, nor does a string or number without a value -/
def wellFormed : Doc → Bool
  | cut => false
  | array ds => wellFormedItems ds
  | object ms => wellFormedMembers ms
  | _ => true

def wellFormedItems : List Doc → Bool
  | [] => true
  | d :: ds => wellFormed d && wellFormedItems ds

def wellFormedMembers : List (Option String × Doc) → Bool
  | [] => true
  | (_, d) :: ms => wellFormed d && wellFormedMembers ms

end

mutual

/-- the value of a document that nests at most `levels` deep -/
def value? (levels : Nat) : Doc → Option Value
  | null => some .null
  | bool b => some (.bool b)
  | number n => some (.number n)
  | text s => some (.text s)
  | unreadable => none
  | cut => none
  | array ds =>
    match levels with
    | 0 => none
    | levels + 1 => (itemValues? levels ds).map .array
  | object ms =>
    match levels with
    | 0 => none
    | levels + 1 => (memberValues? levels ms).map fun ms => .object (Members.ofList ms)

def itemValues? (levels : Nat) : List Doc → Option (List Value)
  | [] => some []
  | d :: ds => do
    let v ← value? levels d
    let vs ← itemValues? levels ds
    return v :: vs

def memberValues? (levels : Nat) : List (Option String × Doc) → Option (List (String × Value))
  | [] => some []
  | (key, d) :: ms => do
    let k ← key
    let v ← value? levels d
    let ms ← memberValues? levels ms
    return (k, v) :: ms

end

mutual

/-- a value as a document, the members of an object in the order of their keys -/
def ofValue : Value → Doc
  | .null => null
  | .bool b => bool b
  | .number n => number n
  | .text s => text s
  | .array vs => array (ofItems vs)
  | .object ms => object (ofMembers ms)

def ofItems : List Value → List Doc
  | [] => []
  | v :: vs => ofValue v :: ofItems vs

def ofMembers : List (String × Value) → List (Option String × Doc)
  | [] => []
  | (k, v) :: ms => (some k, ofValue v) :: ofMembers ms

end

/-- a count, which has 64 bits -/
def count (n : Nat) : Doc := number (.ofUInt64 (.ofNat n))

/-- an object with the given fields in this order -/
def record (fields : List (String × Doc)) : Doc := object (fields.map fun f => (some f.1, f.2))

end Doc

end ReplicatedOrders.Json
