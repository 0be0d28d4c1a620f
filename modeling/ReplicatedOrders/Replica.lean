/-
The replica: its store, the two streams that it writes to, its counters, and a record of what its sources were asked.

A source looks up the on-chain data of an order. While it does, other parties may write to the store, and the source
may be one of them: `Fetched.writes` lists what happens to the store between the question and the reply.
-/
import ReplicatedOrders.Counters
import ReplicatedOrders.Log
import ReplicatedOrders.Snapshot

namespace ReplicatedOrders

/-! ## Sources -/

/-- the course of one lookup -/
structure Fetched where
  writes : List StoreWrite := []
  reply : Except ReplicaError OnChainData

/-- looks up the on-chain data of orders of one family -/
abbrev Source := Order → Fetched

/-- sources by the family that they answer for -/
abbrev Registry := Std.ExtTreeMap String Source

namespace Registry

/-- a source takes the place of an earlier one of the same family -/
def register (g : Registry) (family : String) (s : Source) : Registry := Std.ExtTreeMap.insert g family s

/-- the families, in rising order -/
def families (g : Registry) : List String := Std.ExtTreeMap.keys g

end Registry

/-! ## State -/

structure Replica where
  store : Store := {}
  /-- the stream that updates come from and on-chain data is written back to -/
  updates : Log := {}
  /-- the stream of images -/
  snapshots : Log := {}
  counters : Counters := {}
  /-- families and the orders that their sources were asked about, latest first -/
  asked : List (String × Order) := []

namespace Replica

/-- one write of another party -/
def write (r : Replica) (w : StoreWrite) : Replica := { r with store := w.run r.store }

end Replica

end ReplicatedOrders
