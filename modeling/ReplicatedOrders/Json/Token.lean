/-
Tokens of a JSON text.

`lex` reads a text from left to right as a machine over characters: `feed` takes one character in a scan state, gives
the tokens that are complete with it and the next state, and `lex` is its run over the text. After the first place
where no token can be (`Token.bad`) nothing more is read.
- Between tokens only space, tab, line feed and carriage return are skipped.
- A string in which half of a surrogate pair stands alone is a token without a text, and a number beyond every finite
  number is a token without a value: both have the form of a value, and only a reader of the value has to refuse them.
-/
import ReplicatedOrders.Json.Number

namespace ReplicatedOrders.Json

inductive Token where
  | openArray
  | closeArray
  | openObject
  | closeObject
  | colon
  | comma
  | null
  | bool (b : Bool)
  | number (n : Option Number)
  | text (s : Option String)
  /-- no token can be here -/
  | bad
deriving DecidableEq, Repr

/-! ## Numbers -/

/-- the part of a number that was read last -/
inductive NumberPart where
  | minus
  | zero
  | whole
  | point
  | fraction
  | mark
  | sign
  | exponent
  /-- a digit after a leading zero -/
  | refused
deriving DecidableEq, Repr

/-- a number so far: the digits of each part, latest first -/
structure NumberScan where
  part : NumberPart
  negative : Bool := false
  whole : List Nat := []
  fraction : List Nat := []
  down : Bool := false
  exponent : List Nat := []
deriving DecidableEq, Repr

namespace NumberScan

/-- a number may end after these parts -/
def complete (n : NumberScan) : Bool :=
  match n.part with
  | .zero | .whole | .fraction | .exponent => true
  | _ => false

def literal (n : NumberScan) : Literal :=
  { negative := n.negative
    whole := n.whole.reverse
    fraction := n.fraction.reverse
    exponent := if n.part = .exponent then some (n.down, n.exponent.reverse) else none }

/-- the token of a number that ends here -/
def token (n : NumberScan) : Token := if n.complete then .number n.literal.number? else .bad

/-- continue with a digit -/
def digit (n : NumberScan) (d : Nat) : Option NumberScan :=
  match n.part with
  | .minus => some { n with part := if d = 0 then .zero else .whole, whole := [d] }
  | .zero => some { n with part := .refused }
  | .whole => some { n with whole := d :: n.whole }
  | .point | .fraction => some { n with part := .fraction, fraction := d :: n.fraction }
  | .mark | .sign | .exponent => some { n with part := .exponent, exponent := d :: n.exponent }
  | .refused => none

/-- continue with a character that is no digit -/
def other (n : NumberScan) (c : Char) : Option NumberScan :=
  match n.part, c with
  | .zero, '.' | .whole, '.' => some { n with part := .point }
  | .zero, 'e' | .zero, 'E' | .whole, 'e' | .whole, 'E' | .fraction, 'e' | .fraction, 'E' =>
    some { n with part := .mark }
  | .mark, '+' => some { n with part := .sign }
  | .mark, '-' => some { n with part := .sign, down := true }
  | _, _ => none

/-- continue with a character, or nothing if the number ended before it -/
def next (n : NumberScan) (c : Char) : Option NumberScan :=
  match Numeral.digitIn 10 c with
  | some d => n.digit d
  | none => n.other c

end NumberScan

/-! ## Strings -/

/-- a string so far: its characters, latest first, a high surrogate that waits for its partner, and whether every
surrogate before that had one -/
structure TextScan where
  chars : List Char := []
  high : Option Nat := none
  paired : Bool := true
deriving DecidableEq, Repr

namespace TextScan

def push (t : TextScan) (c : Char) : TextScan :=
  { chars := c :: t.chars, high := none, paired := t.paired && t.high.isNone }

/-- a code unit given by number -/
def pushUnit (t : TextScan) (u : Nat) : TextScan :=
  if 0xD800 ≤ u ∧ u ≤ 0xDBFF then { t with high := some u, paired := t.paired && t.high.isNone }
  else if 0xDC00 ≤ u ∧ u ≤ 0xDFFF then
    match t.high with
    | some h => { t with chars := Char.ofNat (0x10000 + (h - 0xD800) * 0x400 + (u - 0xDC00)) :: t.chars, high := none }
    | none => { t with paired := false }
  else t.push (Char.ofNat u)

def token (t : TextScan) : Token :=
  .text (if t.paired && t.high.isNone then some (String.ofList t.chars.reverse) else none)

end TextScan

/-- the character that a backslash and a letter stand for -/
def unescape (c : Char) : Option Char :=
  match c with
  | '"' => some '"'
  | '\\' => some '\\'
  | '/' => some '/'
  | 'b' => some '\x08'
  | 'f' => some '\x0c'
  | 'n' => some '\n'
  | 'r' => some '\r'
  | 't' => some '\t'
  | _ => none

/-! ## The machine -/

/-- where the machine stands -/
inductive Scan where
  /-- between tokens -/
  | gap
  /-- inside a word, with the letters that are still to come -/
  | word (rest : List Char) (token : Token)
  | number (n : NumberScan)
  | text (t : TextScan)
  /-- after a backslash -/
  | escape (t : TextScan)
  /-- after `\u` and some of its four digits -/
  | code (t : TextScan) (digits : List Nat)
  /-- after `Token.bad` -/
  | stuck
deriving DecidableEq, Repr

/-- a character between tokens -/
def begin (c : Char) : List Token × Scan :=
  match c with
  | ' ' | '\t' | '\n' | '\r' => ([], .gap)
  | '[' => ([.openArray], .gap)
  | ']' => ([.closeArray], .gap)
  | '\x7b' => ([.openObject], .gap)
  | '\x7d' => ([.closeObject], .gap)
  | ':' => ([.colon], .gap)
  | ',' => ([.comma], .gap)
  | '"' => ([], .text {})
  | 'n' => ([], .word ['u', 'l', 'l'] .null)
  | 't' => ([], .word ['r', 'u', 'e'] (.bool true))
  | 'f' => ([], .word ['a', 'l', 's', 'e'] (.bool false))
  | '-' => ([], .number { part := .minus, negative := true })
  | _ =>
    match Numeral.digitIn 10 c with
    | some d => ([], .number { part := if d = 0 then .zero else .whole, whole := [d] })
    | none => ([.bad], .stuck)

/-- one character: the tokens that it completes and the next state -/
def feed : Scan → Char → List Token × Scan
  | .gap, c => begin c
  | .word [] t, c => let (ts, s) := begin c; (t :: ts, s)
  | .word [w] t, c => if c = w then ([t], .gap) else ([.bad], .stuck)
  | .word (w :: ws) t, c => if c = w then ([], .word ws t) else ([.bad], .stuck)
  | .number n, c =>
    match n.next c with
    | some n' => ([], .number n')
    | none => if n.complete then let (ts, s) := begin c; (n.token :: ts, s) else ([.bad], .stuck)
  | .text t, c =>
    if c = '"' then ([t.token], .gap)
    else if c = '\\' then ([], .escape t)
    else if c.toNat < 0x20 then ([.bad], .stuck)
    else ([], .text (t.push c))
  | .escape t, c =>
    if c = 'u' then ([], .code t [])
    else match unescape c with
      | some d => ([], .text (t.push d))
      | none => ([.bad], .stuck)
  | .code t ds, c =>
    match Numeral.digitIn 16 c with
    | none => ([.bad], .stuck)
    | some d =>
      if ds.length < 3 then ([], .code t (d :: ds))
      else ([], .text (t.pushUnit (Numeral.ofDigits 16 (d :: ds).reverse)))
  | .stuck, _ => ([], .stuck)

/-- the tokens that the end of the text completes -/
def finish : Scan → List Token
  | .gap | .stuck => []
  | .word [] t => [t]
  | .number n => [n.token]
  | _ => [.bad]

/-- the tokens of the rest of a text -/
def lexFrom : Scan → List Char → List Token
  | s, [] => finish s
  | s, c :: cs => (feed s c).1 ++ lexFrom (feed s c).2 cs

/-- the tokens of a text -/
def lex (text : String) : List Token := lexFrom .gap text.toList

end ReplicatedOrders.Json
