/-
Enrichment: adding on-chain data to orders that lack it.

One attempt looks the order up, asks the source of its family, merges the reply into the store if the order is still
there, and writes the new data back to the update stream for other consumers. The lookup and the merge are separate
critical sections; whatever others do in between stays as they did it. A failed attempt changes no order, and the next
update of the order is the next chance.
-/
import ReplicatedOrders.Replica

namespace ReplicatedOrders

open Json

/-- how an attempt that did not fail ended -/
inductive Enriched where
  | enriched
  /-- the on-chain data was complete already -/
  | alreadyEnriched
  /-- the order is not in the store, or no longer -/
  | missing
deriving DecidableEq, Repr

/-- how a round over many orders went -/
structure Round where
  enriched : Nat := 0
  skipped : Nat := 0
  failed : Nat := 0
deriving DecidableEq, Repr

namespace Round

/-- count one attempt -/
def add (n : Round) : Except ReplicaError Enriched → Round
  | .ok .enriched => { n with enriched := n.enriched + 1 }
  | .ok _ => { n with skipped := n.skipped + 1 }
  | .error _ => { n with failed := n.failed + 1 }

end Round

/-- what is written back to the update stream: new on-chain data, and no off-chain data -/
structure Delta where
  hash : String
  data : OnChainData

namespace Delta

def toDoc (d : Delta) : Doc := .record [(Order.hashField, .text d.hash), (Order.onChainField, d.data.toDoc)]

def text (d : Delta) : String := d.toDoc.compact

end Delta

/-- what the first section of an attempt finds -/
inductive Lookup where
  | settled (o : Enriched)
  | incomplete (o : Order)

namespace Store

/-- the first critical section of an attempt -/
def lookup (s : Store) (hash : String) : Lookup :=
  match s.get? hash with
  | none => .settled .missing
  | some o => if o.isEnriched then .settled .alreadyEnriched else .incomplete o

end Store

namespace Replica

/-- ask the source of an order; without off-chain data or without a source nobody is asked -/
def ask (g : Registry) (r : Replica) (o : Order) : Replica × Fetched :=
  if !o.hasOffChainData then (r, { reply := .error (.missingOffChainData o.hash) })
  else match g[o.bookName]? with
    | none => (r, { reply := .error (.unknownOrderBook o.bookName) })
    | some source => ({ r with asked := (o.bookName, o) :: r.asked }, source o)

def countFailed (r : Replica) : Replica := { r with counters := { r.counters with failed := r.counters.failed + 1 } }

/-- the last critical section of an attempt; whether the order was still there -/
def merge (r : Replica) (hash : String) (data : OnChainData) : Replica × Bool :=
  match r.store.merge hash data with
  | (s, true) => ({ r with store := s, counters := { r.counters with enriched := r.counters.enriched + 1 } }, true)
  | (s, false) => ({ r with store := s }, false)

/-- write new on-chain data back; a failure changes nothing else -/
def announce (r : Replica) (hash : String) (data : OnChainData) : Replica :=
  { r with updates := (r.updates.append (some (Delta.text ⟨hash, data⟩))).1 }

/-- what follows the reply of a source -/
def settle (r : Replica) (hash : String) : Except ReplicaError OnChainData → Replica × Except ReplicaError Enriched
  | .error e => (r.countFailed, .error e)
  | .ok data =>
    match r.merge hash data with
    | (r, true) => (r.announce hash data, .ok .enriched)
    | (r, false) => (r, .ok .missing)

/-- one attempt -/
def enrich (g : Registry) (r : Replica) (hash : String) : Replica × Except ReplicaError Enriched :=
  match r.store.lookup hash with
  | .settled o => (r, .ok o)
  | .incomplete o =>
    let (r, fetched) := r.ask g o
    (fetched.writes.foldl write r).settle hash fetched.reply

/-- one attempt for each hash, in the given order -/
def enrichAll (g : Registry) (r : Replica) (hashes : List String) : Replica × Round :=
  hashes.foldl (fun (r, n) hash => let (r, o) := r.enrich g hash; (r, n.add o)) (r, {})

end Replica

end ReplicatedOrders
