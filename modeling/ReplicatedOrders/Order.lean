/-
Orders: what a producer says about an order, and what the chain says about it.
-/
import ReplicatedOrders.Json.Value

namespace ReplicatedOrders

/-- the result of an on-chain lookup for one order; amounts are in base units -/
structure OnChainData where
  /-- the state of the order, in the form of its family -/
  orderInfo : Json.Value
  makerBalance : Nat
  makerAllowance : Nat
deriving Inhabited, Repr

structure Order where
  hash : String
  /-- the family of the order; it selects the source of its on-chain data -/
  bookName : String := ""
  /-- the producer's data, `null` until an update carries some -/
  offChainData : Json.Value := .null
  /-- set by enrichment only, all fields at once -/
  onChainData : Option OnChainData := none
deriving Inhabited, Repr

namespace Order

/-- on-chain data is there and says something about the order -/
def isEnriched (o : Order) : Bool := o.onChainData.any fun d => !d.orderInfo.isNull

def hasOffChainData (o : Order) : Bool := !o.offChainData.isNull

end Order

end ReplicatedOrders
