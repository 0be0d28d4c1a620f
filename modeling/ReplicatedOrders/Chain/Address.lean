/-
Addresses, calls and quantities: the texts by which a contract is asked and answers.

- An address is `0x` or `0X` and forty hexadecimal digits of either case, that is twenty bytes.
- A call is `0x`, the selector of a function, and a word of 32 bytes for each argument. All arguments are addresses,
  each after twelve zero bytes.
- A quantity is `0x` and hexadecimal digits, of any length.
-/
import ReplicatedOrders.Error
import ReplicatedOrders.Text.Hex

namespace ReplicatedOrders

/-! ## Addresses -/

structure Address where
  bytes : List UInt8
  length_eq : bytes.length = 20
deriving DecidableEq, Repr

namespace Address

/-- what follows `0x` or `0X` -/
def digits? : List Char → Option (List Char)
  | '0' :: 'x' :: cs => some cs
  | '0' :: 'X' :: cs => some cs
  | _ => none

/-- twenty bytes as an address -/
def ofBytes? (bs : List UInt8) : Option Address := if h : bs.length = 20 then some ⟨bs, h⟩ else none

def parse? (text : String) : Option Address := do
  ofBytes? (← Hex.bytes (← digits? text.toList))

def parse (text : String) : Except ServiceError Address :=
  match parse? text with
  | some a => .ok a
  | none => .error (.invalidAddress text)

/-- the digits of the word that an address takes as an argument -/
def word (a : Address) : List Char := Hex.digits (List.replicate 12 0 ++ a.bytes)

end Address

/-! ## Calls -/

namespace Call

/-- the selector of `balanceOf(address)` -/
def balanceOf : String := "70a08231"

/-- the selector of `allowance(address,address)` -/
def allowance : String := "dd62ed3e"

/-- the words of the arguments, or the fault of the first that is no address -/
def words : List String → Except ServiceError (List Char)
  | [] => .ok []
  | text :: texts => do
    let a ← Address.parse text
    let rest ← words texts
    return a.word ++ rest

/-- the data of a call -/
def encode (selector : String) (arguments : List String) : Except ServiceError String := do
  return String.ofList ('0' :: 'x' :: selector.toList ++ (← words arguments))

end Call

/-! ## Quantities -/

namespace Quantity

/-- only the lower-case `0x` is accepted -/
def parse (text : String) : Except ServiceError Nat :=
  match text.toList with
  | ['0', 'x'] => .error (.invalidResponse (.emptyHex text))
  | '0' :: 'x' :: cs =>
    match Numeral.parseLong 16 (String.ofList cs) with
    | .ok n => .ok n
    | .error _ => .error (.invalidResponse (.notHex text))
  | _ => .error (.invalidResponse (.notHex text))

example : (Quantity.parse "0x1b4").toOption = some 436 := by decide +kernel

end Quantity

end ReplicatedOrders
