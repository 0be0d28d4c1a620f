/-
The store: orders by hash, the cursor, and running totals.

Every operation here is one critical section: it reads or changes orders and cursor together, and nothing else happens
to the store meanwhile. So a store value is what a reader may see, and an interleaving of several parties is a list of
operations.
-/
import ReplicatedOrders.EntryId
import ReplicatedOrders.Order
import ReplicatedOrders.Update
import Std.Data.ExtTreeMap

namespace ReplicatedOrders

/-- orders by hash, in rising order of the hashes by Unicode scalar value -/
abbrev OrderMap := Std.ExtTreeMap String Order

/-- what was done to the store since it was made -/
structure Totals where
  upserts : Nat := 0
  deletes : Nat := 0
  enrichments : Nat := 0
deriving DecidableEq, Repr

structure Store where
  orders : OrderMap := ∅
  /-- the last entry of the update stream that was applied -/
  cursor : EntryId := .zero
  totals : Totals := {}

/-- what applying an action did -/
inductive Applied where
  /-- the entry is at or behind the cursor -/
  | stale
  | upserted
  | deleted (existed : Bool)
  | skipped
deriving DecidableEq, Repr

/-- a summary of the store -/
structure Stats where
  orderCount : Nat
  enrichedCount : Nat
  cursor : EntryId
  totals : Totals
deriving DecidableEq, Repr

namespace Store

/-! ## Reading -/

def get? (s : Store) (hash : String) : Option Order := s.orders[hash]?

def size (s : Store) : Nat := s.orders.size

/-- the hashes, in rising order -/
def hashes (s : Store) : List String := s.orders.keys

/-- the orders, in rising order of their hashes -/
def toList (s : Store) : List Order := s.orders.values

def stats (s : Store) : Stats :=
  ⟨s.size, (s.toList.filter Order.isEnriched).length, s.cursor, s.totals⟩

/-! ## The cursor -/

/-- move the cursor forward; an id at or behind it is refused -/
def advance (s : Store) (id : EntryId) : Store × Bool :=
  if s.cursor < id then ({ s with cursor := id }, true) else (s, false)

/-! ## Changing orders -/

/-- change the order of a hash, or a fresh one, and store it under that hash whatever the change made of it -/
def upsert (s : Store) (hash : String) (change : Order → Order) : Store × Order :=
  let o := { change ((s.get? hash).getD { hash }) with hash }
  ({ s with orders := s.orders.insert hash o, totals := { s.totals with upserts := s.totals.upserts + 1 } }, o)

/-- remove the order of a hash and give it back if it was there -/
def delete (s : Store) (hash : String) : Store × Option Order :=
  match s.get? hash with
  | some o =>
    ({ s with orders := s.orders.erase hash, totals := { s.totals with deletes := s.totals.deletes + 1 } }, some o)
  | none => (s, none)

/-- set the on-chain data of an order that is there; whether it was -/
def merge (s : Store) (hash : String) (data : OnChainData) : Store × Bool :=
  match s.get? hash with
  | some o =>
    ({ s with
        orders := s.orders.insert hash { o with onChainData := some data }
        totals := { s.totals with enrichments := s.totals.enrichments + 1 } }, true)
  | none => (s, false)

/-! ## The view -/

@[simp] theorem get?_empty (hash : String) : ({} : Store).get? hash = none := by
  simp [get?]

theorem getElem?_insert (m : OrderMap) (hash key : String) (o : Order) :
    (m.insert hash o)[key]? = if hash = key then some o else m[key]? := by
  simp [Std.ExtTreeMap.getElem?_insert]

theorem getElem?_erase (m : OrderMap) (hash key : String) :
    (m.erase hash)[key]? = if hash = key then none else m[key]? := by
  simp [Std.ExtTreeMap.getElem?_erase]

theorem get?_upsert (s : Store) (hash key : String) (change : Order → Order) :
    (s.upsert hash change).1.get? key =
      if hash = key then some { change ((s.get? hash).getD { hash }) with hash } else s.get? key :=
  getElem?_insert _ _ _ _

theorem delete_snd (s : Store) (hash : String) : (s.delete hash).2 = s.get? hash := by
  unfold delete
  split <;> simp_all

theorem get?_merge (s : Store) (hash key : String) (data : OnChainData) :
    (s.merge hash data).1.get? key =
      if hash = key then (s.get? hash).map fun o => { o with onChainData := some data } else s.get? key := by
  unfold merge
  split
  · next o h => simp only [h, Option.map_some]; exact getElem?_insert _ _ _ _
  · next h =>
    split
    · next hk => rw [← hk, h]; rfl
    · rfl

@[simp] theorem get?_advance (s : Store) (id : EntryId) (key : String) : (s.advance id).1.get? key = s.get? key := by
  unfold advance
  split <;> rfl

/-- the cursor after a step of the stream is the later of the two positions -/
theorem cursor_advance (s : Store) (id : EntryId) : (s.advance id).1.cursor = max s.cursor id := by
  show (s.advance id).1.cursor = if s.cursor < id then id else s.cursor
  unfold advance
  split <;> rfl

/-! ## Entries of the update stream -/

/-- what an upsert of the update stream changes: the name if it carries one, and the off-chain data -/
def rewrite (bookName : Option String) (data : Json.Value) (o : Order) : Order :=
  { o with bookName := bookName.getD o.bookName, offChainData := data }

/-- move the cursor to an entry and do its action at once; a stale entry does nothing -/
def apply (s : Store) (id : EntryId) (a : Action) : Store × Applied :=
  match s.advance id with
  | (s, false) => (s, .stale)
  | (s, true) =>
    match a with
    | .delete hash =>
      match s.get? hash with
      | some _ =>
        ({ s with
            orders := s.orders.erase hash
            totals := { s.totals with deletes := s.totals.deletes + 1 } }, .deleted true)
      | none => (s, .deleted false)
    | .upsert hash bookName data =>
      let o := rewrite bookName data ((s.get? hash).getD { hash })
      ({ s with
          orders := s.orders.insert hash o
          totals := { s.totals with upserts := s.totals.upserts + 1 } }, .upserted)
    | .skip _ => (s, .skipped)

end Store

/-! ## Writes of other parties -/

/-- one critical section that changes the store -/
inductive StoreWrite where
  | apply (id : EntryId) (a : Action)
  | advance (id : EntryId)
  | upsert (hash : String) (change : Order → Order)
  | delete (hash : String)
  | merge (hash : String) (data : OnChainData)

namespace StoreWrite

def run (s : Store) : StoreWrite → Store
  | apply id a => (s.apply id a).1
  | advance id => (s.advance id).1
  | upsert hash change => (s.upsert hash change).1
  | delete hash => (s.delete hash).1
  | merge hash data => (s.merge hash data).1

end StoreWrite

end ReplicatedOrders
