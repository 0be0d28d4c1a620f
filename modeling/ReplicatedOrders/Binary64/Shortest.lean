/-
The shortest decimal of a binary64 number: the fewest digits such that no other binary64 number is nearer to the
decimal, and of those digits the nearest to the exact value; an exact tie goes to the even digit.

The reals that round to `x` form an interval, closed exactly if the significand is even. `shortest` tries the powers
of ten from the largest down: the first grid with a point in the interval gives the digits, because a grid point in
the interval implies that one of the two grid neighbours of `x` is in it.

`Style` holds what a format decides: which powers of ten are written out, and whether a positive one has a sign.
-/
import ReplicatedOrders.Binary64

namespace ReplicatedOrders.Binary64

/-- an open or closed interval of reals around `value`, all three as numerators over `den` -/
structure Interval where
  low : Nat
  value : Nat
  high : Nat
  den : Nat
  closed : Bool
deriving Repr

/-- the reals that round to a number other than zero; below a power of two the neighbour is half as far -/
def interval (x : Binary64) : Interval :=
  let up := Nat.pow 2 x.exponent.toNat
  let below := if x.significand = leastFull ∧ minExponent < x.exponent then 1 else 2
  { low := (4 * x.significand - below) * up
    value := 4 * x.significand * up
    high := (4 * x.significand + 2) * up
    den := 4 * Nat.pow 2 (-x.exponent).toNat
    closed := x.significand % 2 == 0 }

/-- whether the grid point `c · 10 ^ k` lies in the interval -/
def Interval.holds (i : Interval) (c : Nat) (k : Int) : Bool :=
  let p := c * Nat.pow 10 k.toNat * i.den
  let q := Nat.pow 10 (-k).toNat
  if i.closed then i.low * q ≤ p && p ≤ i.high * q else i.low * q < p && p < i.high * q

/-- the decimal digits as a number, and the power of ten that they are multiplied by -/
structure Digits where
  digits : Nat
  power : Int
deriving DecidableEq, Repr

/-- the nearer of two neighbouring grid points in the interval, or the one that is in it -/
def Interval.pick (i : Interval) (k : Int) : Option Nat :=
  let n := i.value * Nat.pow 10 (-k).toNat
  let d := i.den * Nat.pow 10 k.toNat
  let c := n / d
  let twice := 2 * (n % d)
  match i.holds c k && c != 0, i.holds (c + 1) k with
  | true, true =>
    if twice < d then some c
    else if d < twice then some (c + 1)
    else some (c + c % 2)
  | true, false => some c
  | false, true => some (c + 1)
  | false, false => none

/-- try the grids `10 ^ k`, `10 ^ (k - 1)`, … -/
def Interval.search (i : Interval) : Nat → Int → Digits
  | 0, k => ⟨i.value / i.den, k⟩
  | steps + 1, k =>
    match i.pick k with
    | some c => ⟨c, k⟩
    | none => i.search steps (k - 1)

/-- a power of ten above the magnitude, at most two too large -/
def decimalBound (x : Binary64) : Int :=
  ((Nat.log2 x.significand + 1 : Int) + x.exponent) * 30103 / 100000 + 1

def shortest (x : Binary64) : Digits :=
  if x.significand = 0 then ⟨0, 0⟩ else x.interval.search 24 x.decimalBound

/-! ## Text -/

/-- what a format decides about the text of a number -/
structure Style where
  /-- positional above this place of the point, counted from the left of the digits -/
  lowest : Int
  /-- positional up to this place of the point -/
  highest : Int
  /-- a positive power of ten has the sign `+` -/
  plus : Bool

def zeros (n : Int) : List Char := List.replicate n.toNat '0'

/-- digits with the point at place `p`, and at least one digit on both sides of it -/
def positional (ds : List Char) (p : Int) : List Char :=
  if p ≤ 0 then '0' :: '.' :: zeros (-p) ++ ds
  else if (ds.length : Int) ≤ p then ds ++ zeros (p - ds.length) ++ ['.', '0']
  else ds.take p.toNat ++ '.' :: ds.drop p.toNat

/-- one digit, the point and the other digits if there are any, and the power of ten -/
def scientific (plus : Bool) (ds : List Char) (p : Int) : List Char :=
  let power := 'e' :: (if plus && 0 < p - 1 then ['+'] else []) ++ (toString (p - 1)).toList
  match ds with
  | [] => power
  | [d] => d :: power
  | d :: ds => d :: '.' :: ds ++ power

/-- the shortest decimal in a given style; the sign of zero is shown -/
def text (style : Style) (x : Binary64) : String :=
  let s := x.shortest
  let ds := (toString s.digits).toList
  let p := s.power + ds.length
  let sign := if x.negative then ['-'] else []
  String.ofList (sign ++ if x.significand = 0 then ['0', '.', '0']
    else if style.lowest < p && p ≤ style.highest then positional ds p else scientific style.plus ds p)

end ReplicatedOrders.Binary64
