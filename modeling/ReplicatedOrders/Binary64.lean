/-
Finite binary64 numbers as exact values `± significand · 2 ^ exponent`, and rounding to them.

Every operation computes the exact result as a quotient of naturals and rounds once, to nearest with ties to even
(`ofRatio`). A result beyond the largest finite number is `none`.
- `mul`, `div`: one rounding each.
- `ofDecimal`: reads `s · 10 ^ e` the fast way, by one multiplication or division with a rounded power of ten. The
  result is close to the decimal but not always the nearest number to it.
- `wholeText`: the value rounded to an integer, ties to even, as an exact decimal expansion; the sign of a negative
  number is kept even if it rounds to zero.
-/
namespace ReplicatedOrders

structure Binary64 where
  negative : Bool
  significand : Nat
  exponent : Int
deriving DecidableEq, Repr

namespace Binary64

/-- the exponent of the smallest positive number, and of zero -/
def minExponent : Int := -1074

/-- the exponent of the largest finite number -/
def maxExponent : Int := 971

/-- the smallest significand of 53 bits, two to the power of 52 -/
def leastFull : Nat := 4503599627370496

def zero (negative : Bool) : Binary64 := ⟨negative, 0, minExponent⟩

/-! ## Rounding -/

/-- the quotient rounded to the nearest integer, a half to the even neighbour -/
def divNearest (n d : Nat) : Nat :=
  if 2 * (n % d) < d then n / d
  else if d < 2 * (n % d) then n / d + 1
  else n / d + n / d % 2

/-- numerator and denominator of `n / d / 2 ^ e` -/
def scaled (n d : Nat) (e : Int) : Nat × Nat := (n * Nat.pow 2 (-e).toNat, d * Nat.pow 2 e.toNat)

/-- the exponent at which the significand of `n / d` has 53 bits, or the smallest exponent -/
def exponentFor (n d : Nat) : Int :=
  let guess := max ((Nat.log2 n : Int) - Nat.log2 d - 53) minExponent
  let (a, b) := scaled n d guess
  if 2 * leastFull * b ≤ a then guess + 1 else guess

/-- the finite number nearest to `n / d`, or nothing if that is beyond all of them -/
def ofRatio (negative : Bool) (n d : Nat) : Option Binary64 :=
  if n = 0 then some (zero negative)
  else
    let e := exponentFor n d
    let (a, b) := scaled n d e
    let s := divNearest a b
    let (s, e) := if s = 2 * leastFull then (leastFull, e + 1) else (s, e)
    if e ≤ maxExponent then some ⟨negative, s, e⟩ else none

/-- the magnitude as a quotient of naturals -/
def ratio (x : Binary64) : Nat × Nat := (x.significand * Nat.pow 2 x.exponent.toNat, Nat.pow 2 (-x.exponent).toNat)

def mul (x y : Binary64) : Option Binary64 :=
  let (a, b) := x.ratio
  let (c, d) := y.ratio
  ofRatio (x.negative != y.negative) (a * c) (b * d)

def div (x y : Binary64) : Option Binary64 :=
  let (a, b) := x.ratio
  let (c, d) := y.ratio
  ofRatio (x.negative != y.negative) (a * d) (b * c)

/-! ## Reading a decimal -/

def tenPow (k : Nat) : Option Binary64 := ofRatio false (Nat.pow 10 k) 1

/-- divide by `10 ^ 308` so many times, each quotient rounded; zero stays as it is -/
def shrink : Nat → Binary64 → Option Binary64
  | 0, x => some x
  | n + 1, x =>
    if x.significand = 0 then some x
    else do shrink n (← x.div (← tenPow 308))

/-- multiply by `10 ^ e`; a negative power is divided by, at most 308 places at a time -/
def scaleTen (x : Binary64) (e : Int) : Option Binary64 :=
  if 0 ≤ e then
    if e ≤ 308 then do x.mul (← tenPow e.toNat)
    else if x.significand = 0 then some x
    else none
  else
    let n := (-e).toNat
    let steps := (n - 1) / 308
    do (← shrink steps x).div (← tenPow (n - 308 * steps))

/-- read `± s · 10 ^ e`; nothing if the magnitude grows beyond every finite number -/
def ofDecimal (negative : Bool) (s : Nat) (e : Int) : Option Binary64 := do
  let x ← ofRatio false s 1
  let y ← scaleTen x e
  return { y with negative }

/-! ## Text of the nearest integer -/

/-- the magnitude rounded to an integer, a half to the even neighbour -/
def nearestWhole (x : Binary64) : Nat :=
  let (n, d) := x.ratio
  divNearest n d

def wholeText (x : Binary64) : String :=
  (if x.negative then "-" else "") ++ toString x.nearestWhole

end Binary64

end ReplicatedOrders
