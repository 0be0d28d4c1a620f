/-
JSON numbers: whole numbers of 64 bits, signed or unsigned, and finite binary64 numbers for everything else.

`Literal.number?` reads a literal. Without fraction and exponent it is whole if it fits; the literal `-0` is the number
minus zero. Any other literal goes through a 64-bit significand: digits are taken while it does not overflow, a whole
digit that is dropped raises the exponent by one, a fraction digit that is taken lowers it by one, and the rest of the
fraction is ignored.
-/
import ReplicatedOrders.Binary64
import ReplicatedOrders.Text.Numeral

namespace ReplicatedOrders.Json

/-- a whole number of 64 bits, unsigned or signed -/
structure Whole where
  val : Int
  lower : -9223372036854775808 ≤ val := by omega
  upper : val < 18446744073709551616 := by omega
deriving DecidableEq, Repr

inductive Number where
  | whole (n : Whole)
  | real (x : Binary64)
deriving DecidableEq, Repr

namespace Number

/-- the whole number of an integer, or nothing if it has more than 64 bits -/
def ofInt? (i : Int) : Option Number :=
  if h : -9223372036854775808 ≤ i ∧ i < 18446744073709551616 then some (.whole ⟨i, h.1, h.2⟩) else none

def ofUInt64 (n : UInt64) : Number :=
  .whole ⟨n.toNat, by omega, by have := n.toNat_lt; omega⟩

def ofInt64 (n : Int64) : Number :=
  .whole ⟨n.toInt, n.le_toInt, by have := n.toInt_lt; omega⟩

end Number

/-! ## Literals -/

/-- a number as written: digits before and after the point, and the exponent with its sign (true for minus) -/
structure Literal where
  negative : Bool
  whole : List Nat
  fraction : List Nat
  exponent : Option (Bool × List Nat)
deriving DecidableEq, Repr

namespace Literal

/-- take whole digits into the significand; each digit from the first that overflows on raises the exponent -/
def takeWhole : Nat → List Nat → Nat × Int
  | s, [] => (s, 0)
  | s, d :: ds => if 10 * s + d < UInt64.size then takeWhole (10 * s + d) ds else (s, ds.length + 1)

/-- take fraction digits into the significand up to the first that overflows; each one lowers the exponent -/
def takeFraction : Nat → Int → List Nat → Nat × Int
  | s, e, [] => (s, e)
  | s, e, d :: ds => if 10 * s + d < UInt64.size then takeFraction (10 * s + d) (e - 1) ds else (s, e)

/-- the significand and the exponent before the written one is added -/
def significand (l : Literal) : Nat × Int :=
  let (s, e) := takeWhole 0 l.whole
  takeFraction s e l.fraction

/-- the value of a literal as a binary64 number; nothing if it is beyond all of them -/
def real? (l : Literal) : Option Binary64 :=
  let (s, e) := l.significand
  match l.exponent with
  | none => Binary64.ofDecimal l.negative s e
  | some (down, digits) =>
    let p := Numeral.ofDigits 10 digits
    if p < 2147483648 then Binary64.ofDecimal l.negative s (if down then e - p else e + p)
    else if down || s == 0 then some (Binary64.zero l.negative)
    else none

/-- the value of a literal without fraction and exponent if it fits 64 bits -/
def whole? (l : Literal) : Option Number :=
  let n := Numeral.ofDigits 10 l.whole
  if l.negative then
    if n = 0 then none else Number.ofInt? (-n)
  else Number.ofInt? n

/-- the number that is computed from a literal; nothing if it comes out beyond every finite number -/
def number? (l : Literal) : Option Number :=
  match l.fraction, l.exponent, l.whole? with
  | [], none, some n => some n
  | _, _, _ => l.real?.map .real

end Literal

end ReplicatedOrders.Json
