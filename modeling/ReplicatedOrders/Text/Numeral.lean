/-
Numerals: how unsigned integers are read from text.

Two grammars are in use, and both accept one leading `+`.
- `parseBounded`: decimal digits only, the value below a limit. The text is read from left to right; at one position
  a character that is no digit is reported before a value that is too large.
- `parseLong`: digits in base ten or sixteen, no limit on the value, and `_` between digits ignored.
-/
namespace ReplicatedOrders

/-- why a text is not a numeral -/
inductive NumeralError where
  | empty
  | invalidDigit
  | tooLarge
deriving DecidableEq, Repr

namespace NumeralError

def message : NumeralError → String
  | empty => "cannot parse integer from empty string"
  | invalidDigit => "invalid digit found in string"
  | tooLarge => "number too large to fit in target type"

end NumeralError

namespace Numeral

/-- ASCII digits and letters as digits: letters of either case count on from ten -/
def digitOf (c : Char) : Option Nat :=
  if '0' ≤ c ∧ c ≤ '9' then some (c.toNat - 48)
  else if 'a' ≤ c ∧ c ≤ 'z' then some (c.toNat - 87)
  else if 'A' ≤ c ∧ c ≤ 'Z' then some (c.toNat - 55)
  else none

/-- the value of `c` as a digit of `base` -/
def digitIn (base : Nat) (c : Char) : Option Nat := (digitOf c).filter (· < base)

/-- the number that a list of digits denotes, most significant first -/
def ofDigits (base : Nat) (digits : List Nat) : Nat := digits.foldl (fun v d => base * v + d) 0

/-! ## Bounded decimal numerals -/

/-- continue a value below `limit` with decimal digits -/
def readBounded (limit : Nat) : Nat → List Char → Except NumeralError Nat
  | v, [] => .ok v
  | v, c :: cs =>
    match digitIn 10 c with
    | none => .error .invalidDigit
    | some d => if 10 * v + d < limit then readBounded limit (10 * v + d) cs else .error .tooLarge

/-- a decimal numeral below `limit`; a lone sign is an invalid digit -/
def parseBounded (limit : Nat) (text : String) : Except NumeralError Nat :=
  match text.toList with
  | [] => .error .empty
  | '+' :: c :: cs => readBounded limit 0 (c :: cs)
  | cs => readBounded limit 0 cs

/-! ## Numerals of any length -/

/-- the digits of a long numeral with the underscores dropped, or nothing if another character is among them -/
def longDigits (base : Nat) : List Char → Option (List Nat)
  | [] => some []
  | c :: cs =>
    if c = '_' then longDigits base cs
    else match digitIn base c with
      | none => none
      | some d => (longDigits base cs).map (d :: ·)

/-- drop one leading `+`, unless a second one follows it -/
def dropPlus : List Char → List Char
  | '+' :: '+' :: cs => '+' :: '+' :: cs
  | '+' :: cs => cs
  | cs => cs

/-- a numeral of any length; it does not start with an underscore -/
def parseLong (base : Nat) (text : String) : Except NumeralError Nat :=
  match dropPlus text.toList with
  | [] => .error .empty
  | '_' :: _ => .error .invalidDigit
  | cs =>
    match longDigits base cs with
    | none => .error .invalidDigit
    | some ds => .ok (ofDigits base ds)

end Numeral

end ReplicatedOrders
