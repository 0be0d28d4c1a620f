/-
Hexadecimal text of bytes: two lower-case digits a byte, and its reading, in which case does not matter.

`bytes_digits`: reading the digits of a list of bytes gives the bytes back.
-/
import ReplicatedOrders.Text.Numeral

namespace ReplicatedOrders.Hex

/-- the lower-case digit of a number below sixteen -/
def digit (n : Nat) : Char := Nat.digitChar n

/-- the two digits of a byte, the high half first -/
def pair (b : UInt8) : List Char := [digit (b.toNat / 16), digit (b.toNat % 16)]

/-- two digits a byte, lower case -/
def digits (bytes : List UInt8) : List Char := bytes.flatMap pair

/-- pairs of digits of either case; an odd count or another character is refused -/
def bytes : List Char → Option (List UInt8)
  | [] => some []
  | [_] => none
  | a :: b :: cs => do
    let high ← Numeral.digitIn 16 a
    let low ← Numeral.digitIn 16 b
    let rest ← bytes cs
    return UInt8.ofNat (16 * high + low) :: rest

theorem digitIn_digit (n : Nat) (h : n < 16) : Numeral.digitIn 16 (digit n) = some n := by
  have : ∀ m : Fin 16, Numeral.digitIn 16 (digit m.val) = some m.val := by decide
  exact this ⟨n, h⟩

theorem bytes_digits (bs : List UInt8) : bytes (digits bs) = some bs := by
  induction bs with
  | nil => rfl
  | cons b bs ih =>
    have hb := b.toNat_lt
    have hlow : UInt8.ofNat (16 * (b.toNat / 16) + b.toNat % 16) = b := by
      rw [Nat.div_add_mod]
      exact UInt8.ofNat_toNat
    have ih' : bytes (List.flatMap pair bs) = some bs := ih
    simpa [digits, pair, bytes, digitIn_digit _ (by omega : b.toNat / 16 < 16),
      digitIn_digit _ (by omega : b.toNat % 16 < 16), ih'] using hlow

end ReplicatedOrders.Hex
