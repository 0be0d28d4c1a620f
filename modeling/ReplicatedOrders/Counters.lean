/-
Counters: what the replica tells its operators about its work.

A counter is shown once it was incremented, the gauge once it was set.
-/
namespace ReplicatedOrders

structure Counters where
  received : Nat := 0
  malformed : Nat := 0
  stale : Nat := 0
  deletes : Nat := 0
  enriched : Nat := 0
  failed : Nat := 0
  published : Nat := 0
  /-- the number of orders after the last batch -/
  orders : Option Nat := none
deriving DecidableEq, Repr

namespace Counters

/-- the counters under their names, with the ones that were never incremented left out -/
def toList (c : Counters) : List (String × Nat) :=
  ([("order_replica_entries_received_total", c.received),
    ("order_replica_entries_dropped_total\x7breason=malformed\x7d", c.malformed),
    ("order_replica_entries_dropped_total\x7breason=stale\x7d", c.stale),
    ("order_replica_deletes_total", c.deletes),
    ("order_replica_enrichments_total\x7boutcome=enriched\x7d", c.enriched),
    ("order_replica_enrichments_total\x7boutcome=failed\x7d", c.failed),
    ("order_replica_snapshots_published_total", c.published)].filter (·.2 ≠ 0)) ++
    c.orders.toList.map (("order_replica_orders", ·))

end Counters

end ReplicatedOrders
