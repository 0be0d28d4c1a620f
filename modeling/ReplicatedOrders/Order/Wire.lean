/-
Orders on the wire.

On-chain data is read in two ways. On its own it is strict: all three fields must stand. Inside an order it is lenient:
`null`, or an object in which a field is missing or null, means that there is none; amounts that stand must still be
readable. An amount is written as a decimal string and read from any leaf by way of its text.
-/
import ReplicatedOrders.Error
import ReplicatedOrders.Order

namespace ReplicatedOrders

open Json

/-! ## Amounts -/

namespace Amount

/-- read an amount from the text of a leaf -/
def ofValue (v : Value) : Except ShapeError Nat :=
  match v.textual with
  | .text s =>
    match Numeral.parseLong 10 s with
    | .ok n => .ok n
    | .error e => .error (.amountNumeral s e)
  | w => .error (.amountShape w)

def decoder : Decoder Nat := fun levels d => do
  let v ← Decoder.value levels d
  match ofValue v with
  | .ok n => return n
  | .error e => fault e

def toDoc (n : Nat) : Doc := .text (toString n)

end Amount

/-! ## Entry ids -/

namespace EntryId

def decoder : Decoder EntryId := fun levels d => do
  let s ← Decoder.text levels d
  match parse? s with
  | some id => return id
  | none => fault (.entryId s)

def toDoc (id : EntryId) : Doc := .text id.text

end EntryId

/-! ## On-chain data -/

namespace OnChainData

def infoField : String := "orderInfo"
def balanceField : String := "makerBalance_weiUnits"
def allowanceField : String := "makerAllowance_weiUnits"

def toDoc (d : OnChainData) : Doc :=
  .record [(infoField, .ofValue d.orderInfo), (balanceField, Amount.toDoc d.makerBalance),
    (allowanceField, Amount.toDoc d.makerAllowance)]

/-- the fields of strict on-chain data that were read so far -/
structure Strict where
  info : Slot Value := none
  balance : Slot Nat := none
  allowance : Slot Nat := none

namespace Strict

def field (levels : Nat) (s : Strict) (name : String) (d : Doc) : Except JsonError Strict :=
  if name = infoField then do return { s with info := ← s.info.read name Decoder.value levels d }
  else if name = balanceField then do return { s with balance := ← s.balance.read name Amount.decoder levels d }
  else if name = allowanceField then do return { s with allowance := ← s.allowance.read name Amount.decoder levels d }
  else skip s d

def close (s : Strict) : Except JsonError OnChainData := do
  return ⟨← s.info.required infoField, ← s.balance.required balanceField, ← s.allowance.required allowanceField⟩

def items (levels : Nat) : Items OnChainData := do
  let missing {α : Type} (n : Nat) : Except JsonError α := fault (.missingItem n "OnChainData" 3)
  let info ← Items.nextOr (missing 0) Decoder.value levels
  let balance ← Items.nextOr (missing 1) Amount.decoder levels
  let allowance ← Items.nextOr (missing 2) Amount.decoder levels
  return ⟨info, balance, allowance⟩

end Strict

/-- all fields must stand -/
def decoder : Decoder OnChainData :=
  Decoder.record "OnChainData" (fun levels ms => do (← readMembers (Strict.field levels) {} ms).close) Strict.items

/-- the fields of lenient on-chain data that were read so far; a field that is null is read as nothing -/
structure Lenient where
  info : Slot (Option Value) := none
  balance : Slot (Option Nat) := none
  allowance : Slot (Option Nat) := none

namespace Lenient

def field (levels : Nat) (s : Lenient) (name : String) (d : Doc) : Except JsonError Lenient :=
  if name = infoField then do
    return { s with info := ← s.info.read name (Decoder.nullable Decoder.value) levels d }
  else if name = balanceField then do
    return { s with balance := ← s.balance.read name (Decoder.nullable Amount.decoder) levels d }
  else if name = allowanceField then do
    return { s with allowance := ← s.allowance.read name (Decoder.nullable Amount.decoder) levels d }
  else skip s d

/-- on-chain data if all three fields have a value -/
def complete (info : Option Value) (balance allowance : Option Nat) : Option OnChainData := do
  return ⟨← info, ← balance, ← allowance⟩

def close (s : Lenient) : Option OnChainData := complete s.info.join s.balance.join s.allowance.join

def items (levels : Nat) : Items (Option OnChainData) := do
  let info ← Items.nextOr (.ok none) (Decoder.nullable Decoder.value) levels
  let balance ← Items.nextOr (.ok none) (Decoder.nullable Amount.decoder) levels
  let allowance ← Items.nextOr (.ok none) (Decoder.nullable Amount.decoder) levels
  return complete info balance allowance

end Lenient

/-- on-chain data inside an order: all fields, or nothing -/
def lenientDecoder : Decoder (Option OnChainData) := fun levels d => do
  let data ← Decoder.nullable
    (Decoder.record "PartialOnChainData" (fun levels ms => do return (← readMembers (Lenient.field levels) {} ms).close)
      Lenient.items) levels d
  return data.join

end OnChainData

/-! ## Orders -/

namespace Order

def hashField : String := "orderHash"
def bookField : String := "orderBookName"
def offChainField : String := "offChainData"
def onChainField : String := "onChainData"

/-- on-chain data has a field only if there is some -/
def toDoc (o : Order) : Doc :=
  .record ([(hashField, .text o.hash), (bookField, .text o.bookName), (offChainField, .ofValue o.offChainData)] ++
    o.onChainData.toList.map fun d => (onChainField, d.toDoc))

/-- the fields of an order that were read so far -/
structure Fields where
  hash : Slot String := none
  bookName : Slot String := none
  offChainData : Slot Value := none
  onChainData : Slot (Option OnChainData) := none

namespace Fields

def field (levels : Nat) (s : Fields) (name : String) (d : Doc) : Except JsonError Fields :=
  if name = hashField then do return { s with hash := ← s.hash.read name Decoder.text levels d }
  else if name = bookField then do return { s with bookName := ← s.bookName.read name Decoder.text levels d }
  else if name = offChainField then do
    return { s with offChainData := ← s.offChainData.read name Decoder.value levels d }
  else if name = onChainField then do
    return { s with onChainData := ← s.onChainData.read name OnChainData.lenientDecoder levels d }
  else skip s d

def close (s : Fields) : Except JsonError Order := do
  return ⟨← s.hash.required hashField, s.bookName.getD "", s.offChainData.getD .null, s.onChainData.join⟩

def items (levels : Nat) : Items Order := do
  let hash ← Items.nextOr (fault (.missingItem 0 "Order" 4)) Decoder.text levels
  let bookName ← Items.nextOr (.ok "") Decoder.text levels
  let offChainData ← Items.nextOr (.ok .null) Decoder.value levels
  let onChainData ← Items.nextOr (.ok none) OnChainData.lenientDecoder levels
  return ⟨hash, bookName, offChainData, onChainData⟩

end Fields

/-- only the hash has to stand -/
def decoder : Decoder Order :=
  Decoder.record "Order" (fun levels ms => do (← readMembers (Fields.field levels) {} ms).close) Fields.items

def decode (text : String) : Except JsonError Order := Json.decode decoder text

end Order

end ReplicatedOrders
