/-
The source of token balances: what the maker of an order has, and what the exchange contract may take of it.

The off-chain data of the order names the maker and the token. An order that does not name both by valid addresses is
refused before anything is sent. The lookups run side by side: both requests are sent, and of two faults the one of the
balance is reported.
-/
import ReplicatedOrders.Chain.Rpc
import ReplicatedOrders.Replica

namespace ReplicatedOrders

open Json

structure TokenSource where
  family : String
  /-- the exchange contract of the family -/
  spender : String
  spender_valid : (Address.parse? spender).isSome = true

/-- whose balance and allowance are looked up -/
structure TokenLookup where
  maker : String
  makerToken : String
  spender : String
deriving DecidableEq, Repr

namespace TokenLookup

def makerField : String := "maker"
def tokenField : String := "makerToken"
def spenderField : String := "spender"

def value (l : TokenLookup) : Value :=
  .object (Members.ofList
    [(makerField, .text l.maker), (tokenField, .text l.makerToken), (spenderField, .text l.spender)])

end TokenLookup

namespace TokenSource

/-- a source for a spender, which must be a valid address -/
def make (family spender : String) : Except ServiceError TokenSource :=
  if h : (Address.parse? spender).isSome = true then .ok ⟨family, spender, h⟩ else .error (.invalidAddress spender)

/-- a member of the off-chain data that must hold an address -/
def addressField (hash : String) (data : Members) (field : String) : Except ConversionFault String :=
  match data.get? field with
  | some (.text value) =>
    if (Address.parse? value).isSome then .ok value else .error (.invalidAddress hash field value)
  | _ => .error (.missingField hash field)

/-- what to look up for an order -/
def convert (t : TokenSource) (o : Order) : Except ConversionFault TokenLookup :=
  match o.offChainData with
  | .object data => do
    let maker ← addressField o.hash data TokenLookup.makerField
    let token ← addressField o.hash data TokenLookup.tokenField
    return ⟨maker, token, t.spender⟩
  | _ => .error (.notAnObject o.hash)

def fetch (t : TokenSource) (c : RpcClient) (server : RpcServer) (o : Order) :
    RpcClient × Except ReplicaError OnChainData :=
  match t.convert o with
  | .error e => (c, .error (.conversion e))
  | .ok l =>
    let (c, balance) := c.balanceOf server l.makerToken l.maker
    let (c, allowance) := c.allowance server l.makerToken l.maker l.spender
    match balance, allowance with
    | .error e, _ => (c, .error (.service e))
    | .ok _, .error e => (c, .error (.service e))
    | .ok b, .ok a => (c, .ok ⟨l.value, b, a⟩)

/-- the source with a client and a server behind it -/
def source (t : TokenSource) (c : RpcClient) (server : RpcServer) : Source :=
  fun o => { reply := (t.fetch c server o).2 }

end TokenSource

end ReplicatedOrders
