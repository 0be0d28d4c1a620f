/-
Compact JSON text: no blanks, members in the order of the document, numbers by their shortest decimals.

Strings escape only `"`, `\` and the controls below the space, and keep every other character as it is. A document with
a place that has no text (`Doc.cut`, `Doc.unreadable`, a member without a key) shows nothing there; documents of values
have none.
-/
import ReplicatedOrders.Json.Doc
import ReplicatedOrders.Binary64.Shortest

namespace ReplicatedOrders.Json

/-- real numbers are positional up to sixteen digits before the point and up to four zeros after it; a greater power of
ten has a sign -/
def realStyle : Binary64.Style := ⟨-5, 16, true⟩

/-- a character below the space that has no letter of its own, as four lower-case hexadecimal digits -/
def controlCode (c : Char) : List Char :=
  ['\\', 'u', '0', '0', Nat.digitChar (c.toNat / 16), Nat.digitChar (c.toNat % 16)]

def escapeChar (c : Char) : List Char :=
  if c = '"' then ['\\', '"']
  else if c = '\\' then ['\\', '\\']
  else if c.toNat < 0x20 then
    match c with
    | '\x08' => ['\\', 'b']
    | '\t' => ['\\', 't']
    | '\n' => ['\\', 'n']
    | '\x0c' => ['\\', 'f']
    | '\r' => ['\\', 'r']
    | _ => controlCode c
  else [c]

/-- a string between quotes -/
def quote (s : String) : List Char := '"' :: s.toList.flatMap escapeChar ++ ['"']

def Number.text : Number → String
  | whole n => toString n.val
  | real x => x.text realStyle

namespace Doc

mutual

def chars : Doc → List Char
  | null => ['n', 'u', 'l', 'l']
  | bool true => ['t', 'r', 'u', 'e']
  | bool false => ['f', 'a', 'l', 's', 'e']
  | number n => n.text.toList
  | text s => quote s
  | unreadable => []
  | cut => []
  | array [] => ['[', ']']
  | array (d :: ds) => '[' :: chars d ++ charsItems ds ++ [']']
  | object [] => ['\x7b', '\x7d']
  | object ((key, d) :: ms) => '\x7b' :: charsKey key ++ ':' :: chars d ++ charsMembers ms ++ ['\x7d']

/-- items after the first, each behind a comma -/
def charsItems : List Doc → List Char
  | [] => []
  | d :: ds => ',' :: chars d ++ charsItems ds

/-- members after the first, each behind a comma -/
def charsMembers : List (Option String × Doc) → List Char
  | [] => []
  | (key, d) :: ms => ',' :: charsKey key ++ ':' :: chars d ++ charsMembers ms

def charsKey : Option String → List Char
  | none => []
  | some key => quote key

end

/-- the compact text of a document -/
def compact (d : Doc) : String := String.ofList d.chars

end Doc

/-- the compact text of a value -/
def Value.compact (v : Value) : String := (Doc.ofValue v).compact

end ReplicatedOrders.Json
