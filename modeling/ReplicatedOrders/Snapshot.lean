/-
Snapshots: the image of a whole store, and its text.

An image carries the cursor that it reflects. Reading one back gives a store in which every order stands under a
non-empty hash that is its own: the key of the image decides, not the field.
-/
import ReplicatedOrders.Store
import ReplicatedOrders.Order.Wire

namespace ReplicatedOrders

open Json

structure Snapshot where
  cursor : EntryId
  /-- creation time in milliseconds -/
  createdAt : Int64 := 0
  orders : OrderMap := ∅

namespace Snapshot

def cursorField : String := "cursor"
def createdField : String := "createdAt"
def ordersField : String := "orders"

/-! ## Text -/

def ordersDoc (orders : OrderMap) : Doc := .record (orders.toList.map fun o => (o.1, o.2.toDoc))

def toDoc (s : Snapshot) : Doc :=
  .record [(cursorField, s.cursor.toDoc), (createdField, .number (.ofInt64 s.createdAt)),
    (ordersField, ordersDoc s.orders)]

def text (s : Snapshot) : String := s.toDoc.compact

/-- the orders of an image; the last of a repeated key stays -/
def ordersDecoder : Decoder OrderMap := fun levels d => do
  let members ← Decoder.map Order.decoder levels d
  return members.foldl (fun m o => m.insert o.1 o.2) ∅

/-- the fields of an image that were read so far -/
structure Fields where
  cursor : Slot EntryId := none
  createdAt : Slot Int64 := none
  orders : Slot OrderMap := none

namespace Fields

def field (levels : Nat) (s : Fields) (name : String) (d : Doc) : Except JsonError Fields :=
  if name = cursorField then do return { s with cursor := ← s.cursor.read name EntryId.decoder levels d }
  else if name = createdField then do return { s with createdAt := ← s.createdAt.read name Decoder.int64 levels d }
  else if name = ordersField then do return { s with orders := ← s.orders.read name ordersDecoder levels d }
  else skip s d

def close (s : Fields) : Except JsonError Snapshot := do
  return ⟨← s.cursor.required cursorField, s.createdAt.getD 0, s.orders.getD ∅⟩

def items (levels : Nat) : Items Snapshot := do
  let cursor ← Items.nextOr (fault (.missingItem 0 "ReplicaSnapshot" 3)) EntryId.decoder levels
  let createdAt ← Items.nextOr (.ok 0) Decoder.int64 levels
  let orders ← Items.nextOr (.ok ∅) ordersDecoder levels
  return ⟨cursor, createdAt, orders⟩

end Fields

/-- only the cursor has to stand -/
def decoder : Decoder Snapshot :=
  Decoder.record "ReplicaSnapshot" (fun levels ms => do (← readMembers (Fields.field levels) {} ms).close) Fields.items

def decode (text : String) : Except JsonError Snapshot := Json.decode decoder text

end Snapshot

/-! ## Images and stores -/

namespace Store

/-- the image of a store -/
def snapshot (s : Store) (createdAt : Int64) : Snapshot := ⟨s.cursor, createdAt, s.orders⟩

/-- a store from an image: orders without a hash are dropped, and each order takes the hash that it is kept under -/
def ofSnapshot (image : Snapshot) : Store :=
  { orders := image.orders.toList.foldl
      (fun m o => if o.1 = "" then m else m.insert o.1 { o.2 with hash := o.1 }) ∅
    cursor := image.cursor }

end Store

end ReplicatedOrders
