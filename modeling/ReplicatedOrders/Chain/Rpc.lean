/-
The JSON-RPC client of a chain node.

Every request that is made takes the next id, whether it succeeds or not; ids count from one and wrap at 64 bits. A
transport fault, an HTTP status of 400 to 599 and a body that is no response are one kind of error, `http`. A response
with an error gives that error whatever its result is; one with neither is of no use.
-/
import ReplicatedOrders.Chain.Address

namespace ReplicatedOrders

open Json

/-! ## Requests -/

structure RpcRequest where
  id : UInt64
  method : String
  params : List Value

namespace RpcRequest

def value (r : RpcRequest) : Value :=
  .object (Members.ofList
    [("id", .number (.ofUInt64 r.id)), ("jsonrpc", .text "2.0"), ("method", .text r.method),
      ("params", .array r.params)])

/-- the body of the HTTP request -/
def body (r : RpcRequest) : String := r.value.compact

end RpcRequest

/-! ## Responses -/

structure RpcFault where
  code : Int64
  text : String
deriving DecidableEq, Repr

/-- what the body of a response says -/
structure RpcBody where
  result : Option String
  fault : Option RpcFault
deriving DecidableEq, Repr

namespace RpcFault

/-- the fields of an error that were read so far -/
structure Fields where
  code : Slot Int64 := none
  text : Slot String := none

def Fields.field (levels : Nat) (s : Fields) (name : String) (d : Doc) : Except JsonError Fields :=
  if name = "code" then do return { s with code := ← s.code.read name Decoder.int64 levels d }
  else if name = "message" then do return { s with text := ← s.text.read name Decoder.text levels d }
  else skip s d

def Fields.close (s : Fields) : Except JsonError RpcFault := do
  return ⟨← s.code.required "code", ← s.text.required "message"⟩

def Fields.items (levels : Nat) : Items RpcFault := do
  let code ← Items.nextOr (fault (.missingItem 0 "error" 2)) Decoder.int64 levels
  let text ← Items.nextOr (fault (.missingItem 1 "error" 2)) Decoder.text levels
  return ⟨code, text⟩

/-- both fields must stand -/
def decoder : Decoder RpcFault :=
  Decoder.record "error" (fun levels ms => do (← readMembers (Fields.field levels) {} ms).close) Fields.items

end RpcFault

namespace RpcBody

/-- the fields of a response that were read so far; a field that is null is read as nothing -/
structure Fields where
  result : Slot (Option String) := none
  fault : Slot (Option RpcFault) := none

def Fields.field (levels : Nat) (s : Fields) (name : String) (d : Doc) : Except JsonError Fields :=
  if name = "result" then do
    return { s with result := ← s.result.read name (Decoder.nullable Decoder.text) levels d }
  else if name = "error" then do
    return { s with fault := ← s.fault.read name (Decoder.nullable RpcFault.decoder) levels d }
  else skip s d

def Fields.close (s : Fields) : RpcBody := ⟨s.result.join, s.fault.join⟩

def Fields.items (levels : Nat) : Items RpcBody := do
  let result ← Items.nextOr (Json.fault (.missingItem 0 "response" 2)) (Decoder.nullable Decoder.text) levels
  let fault ← Items.nextOr (Json.fault (.missingItem 1 "response" 2)) (Decoder.nullable RpcFault.decoder) levels
  return ⟨result, fault⟩

/-- in an object no field has to stand, in an array both have to -/
def decoder : Decoder RpcBody :=
  Decoder.record "response" (fun levels ms => do return (← readMembers (Fields.field levels) {} ms).close) Fields.items

/-- the result of a response to a call of `method` -/
def outcome (method : String) (r : RpcBody) : Except ServiceError String :=
  match r.fault, r.result with
  | some f, _ => .error (.rpc f.code f.text)
  | none, some text => .ok text
  | none, none => .error (.invalidResponse (.noResult method))

end RpcBody

/-! ## The exchange -/

/-- what becomes of a request -/
inductive HttpReply where
  /-- there is no server -/
  | unreachable
  /-- the server takes the request and closes the connection -/
  | dropped
  | response (status : Nat) (body : String)
deriving DecidableEq, Repr

namespace HttpReply

/-- the request came to the server -/
def received : HttpReply → Bool
  | unreachable => false
  | _ => true

/-- the status says that the request failed -/
def refuses (status : Nat) : Bool := 400 ≤ status && status < 600

/-- a response with this status has a body; whatever follows one without is not read -/
def hasBody (status : Nat) : Bool := status ≠ 204 && status ≠ 304

/-- the result that a reply to a call of `method` holds -/
def outcome (method : String) : HttpReply → Except ServiceError String
  | response status body =>
    if refuses status then .error .http
    else match Json.decode RpcBody.decoder (if hasBody status then body else "") with
      | .ok r => r.outcome method
      | .error _ => .error .http
  | unreachable | dropped => .error .http

end HttpReply

/-- a server, as far as the client sees it -/
abbrev RpcServer := RpcRequest → HttpReply

structure RpcClient where
  nextId : UInt64 := 1
  /-- the requests that came to the server, latest first -/
  sent : List RpcRequest := []

namespace RpcClient

def request (c : RpcClient) (server : RpcServer) (method : String) (params : List Value) :
    RpcClient × Except ServiceError String :=
  let r : RpcRequest := ⟨c.nextId, method, params⟩
  let reply := server r
  ({ nextId := c.nextId + 1, sent := if reply.received then r :: c.sent else c.sent }, reply.outcome method)

/-- a number of 64 bits from a quantity -/
def blockNumberOf (hex : String) : Except ServiceError UInt64 := do
  let n ← Quantity.parse hex
  if n < UInt64.size then return .ofNat n else throw (.invalidResponse (.blockNumber hex))

/-- the number of the latest block -/
def blockNumber (c : RpcClient) (server : RpcServer) : RpcClient × Except ServiceError UInt64 :=
  let (c, result) := c.request server "eth_blockNumber" []
  (c, result.bind blockNumberOf)

/-- call a contract as of the latest block -/
def call (c : RpcClient) (server : RpcServer) (contract data : String) : RpcClient × Except ServiceError String :=
  c.request server "eth_call"
    [.object (Members.ofList [("to", .text contract), ("data", .text data)]), .text "latest"]

/-- call a token contract for a quantity; nothing is sent unless every address is valid, the arguments first -/
def query (c : RpcClient) (server : RpcServer) (token selector : String) (arguments : List String) :
    RpcClient × Except ServiceError Nat :=
  match Call.encode selector arguments, Address.parse token with
  | .error e, _ => (c, .error e)
  | .ok _, .error e => (c, .error e)
  | .ok data, .ok _ =>
    let (c, result) := c.call server token data
    (c, result.bind Quantity.parse)

/-- the balance of an owner -/
def balanceOf (c : RpcClient) (server : RpcServer) (token owner : String) : RpcClient × Except ServiceError Nat :=
  c.query server token Call.balanceOf [owner]

/-- what a spender may take from an owner -/
def allowance (c : RpcClient) (server : RpcServer) (token owner spender : String) :
    RpcClient × Except ServiceError Nat :=
  c.query server token Call.allowance [owner, spender]

end RpcClient

end ReplicatedOrders
