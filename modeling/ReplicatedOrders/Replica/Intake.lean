/-
Intake: what one entry of the update stream does to the replica.

An entry that is no update moves the cursor all the same. An accepted upsert is followed by one attempt at enrichment,
after the critical section that applied it; how the attempt ends does not matter to the intake.
-/
import ReplicatedOrders.Replica.Enrichment

namespace ReplicatedOrders

namespace LogEntry

/-- the action of an entry, or nothing if its payload is missing or no update -/
def action? (e : LogEntry) : Option Action :=
  e.payload.bind fun payload =>
    match Update.decode payload with
    | .ok u => some u.action
    | .error _ => none

end LogEntry

namespace Replica

/-- the critical section of an entry, and the hash of the order that it upserted -/
def accept (r : Replica) (e : LogEntry) : Replica × Option String :=
  let c := { r.counters with received := r.counters.received + 1 }
  match e.action? with
  | none =>
    match r.store.advance e.id with
    | (s, true) => ({ r with store := s, counters := { c with malformed := c.malformed + 1 } }, none)
    | (s, false) => ({ r with store := s, counters := { c with stale := c.stale + 1 } }, none)
  | some a =>
    match r.store.apply e.id a with
    | (s, .stale) => ({ r with store := s, counters := { c with stale := c.stale + 1 } }, none)
    | (s, .deleted _) => ({ r with store := s, counters := { c with deletes := c.deletes + 1 } }, none)
    | (s, .skipped) => ({ r with store := s, counters := c }, none)
    | (s, .upserted) => ({ r with store := s, counters := c }, some a.hash)

/-- one entry of the update stream -/
def process (g : Registry) (r : Replica) (e : LogEntry) : Replica :=
  match r.accept e with
  | (r, none) => r
  | (r, some hash) => (r.enrich g hash).1

/-- entries one after the other -/
def processAll (g : Registry) (r : Replica) (es : List LogEntry) : Replica := es.foldl (process g) r

/-- set the gauge -/
def gauge (r : Replica) : Replica := { r with counters := { r.counters with orders := some r.store.size } }

end Replica

end ReplicatedOrders
