/-
Percent-decoding of one path segment.

Every `%` with two hexadecimal digits after it is one octet; any other `%` stands for itself, and so does `+`. The
octets have to be UTF-8.
-/
import ReplicatedOrders.Text.Numeral

namespace ReplicatedOrders.Percent

/-- the value of an octet as a hexadecimal digit -/
def digit? (b : UInt8) : Option Nat := Numeral.digitIn 16 (Char.ofNat b.toNat)

def percent : UInt8 := 37

/-- the octet that an escape with these two digits stands for -/
def escape? (x y : UInt8) : Option UInt8 := do
  return UInt8.ofNat (16 * (← digit? x) + (← digit? y))

/-- replace the escapes among octets; an escape takes three of them -/
def octets : List UInt8 → List UInt8
  | b :: x :: y :: rest =>
    if b = percent then
      match escape? x y with
      | some o => o :: octets rest
      | none => b :: octets (x :: y :: rest)
    else b :: octets (x :: y :: rest)
  | bs => bs

example : octets "%%41+%4".toUTF8.data.toList = "%A+%4".toUTF8.data.toList := by decide +kernel

/-- the text of a segment, or nothing if its octets are not UTF-8 -/
def decode? (segment : String) : Option String :=
  String.fromUTF8? ⟨(octets segment.toUTF8.data.toList).toArray⟩

end ReplicatedOrders.Percent
