/-
Requests: how a client numbers them over a run of calls, and what is posted.

A run is a list of operations, each with the server that it meets. Clones of a client share its counter, so the
operations of all of them are one run. An operation whose addresses are not all valid makes no request; every other one
makes one, under the next id, whatever becomes of it.
- `RpcRequest.value_eq`, `RpcRequest.decode_body`: the members of the body of a request.
- `RpcClient.query_of_valid`, `RpcClient.query_of_invalid`: a lookup in a token contract.
- `RpcClient.perform_of_valid`, `RpcClient.perform_of_invalid`: one operation.
- `RpcClient.run_eq`: the client after a run.
- `RpcClient.id_made`, `RpcClient.body_made`: the requests of a run by their places.
- `RpcClient.requests_numbered`: all of it, with what the replies give.
-/
import ReplicatedOrders.Proofs.Calls
import ReplicatedOrders.Proofs.Responses
import ReplicatedOrders.Proofs.Wire

namespace ReplicatedOrders

open Json

/-! ## Bodies -/

/-- what is written of the value is read back, and it nests at most so many levels -/
structure Json.Value.Kept (levels : Nat) (v : Value) : Prop where
  lossless : v.Lossless
  depth : v.depth ≤ levels

namespace Json.Value.Kept

variable {levels : Nat}

theorem text (s : String) : Kept levels (.text s) := ⟨⟨.text s, .text s⟩, Nat.zero_le levels⟩

theorem ofUInt64 (n : UInt64) : Kept levels (.number (.ofUInt64 n)) := ⟨⟨.number _, .whole _⟩, Nat.zero_le levels⟩

theorem array {vs : List Value} (h : ∀ v ∈ vs, Kept levels v) : Kept (levels + 1) (.array vs) :=
  ⟨⟨.array fun v hv => (h v hv).lossless.1, .array fun v hv => (h v hv).lossless.2⟩,
    Nat.succ_le_succ ((depthItems_le_iff vs levels).2 fun v hv => (h v hv).depth)⟩

theorem object {ms : Members} (h : ∀ m ∈ ms, Kept levels m.2) : Kept (levels + 1) (.object (Members.ofList ms)) := by
  have hmembers : ∀ m ∈ Members.ofList ms, Kept levels m.2 := fun m hm => h m (Members.mem_of_mem_ofList hm)
  exact ⟨⟨.object (Members.rising_ofList ms) fun m hm => (hmembers m hm).lossless.1,
      .object fun m hm => (hmembers m hm).lossless.2⟩,
    Nat.succ_le_succ ((depthMembers_le_iff _ levels).2 fun m hm => (hmembers m hm).depth)⟩

end Json.Value.Kept

namespace RpcRequest

/-- what is posted is an object with these members and no other -/
theorem value_eq (r : RpcRequest) :
    r.value = .object [("id", .number (.ofUInt64 r.id)), ("jsonrpc", .text "2.0"), ("method", .text r.method),
      ("params", .array r.params)] := by
  have hkeys : ["id", "jsonrpc", "method", "params"].Pairwise (· < ·) := by decide
  exact congrArg Value.object (Members.ofList_of_rising (List.pairwise_map.1 hkeys))

/-- the body is read back as what is posted -/
theorem decode_body {r : RpcRequest} (h : ∀ v ∈ r.params, v.Kept 125) :
    Json.decode Decoder.value r.body = .ok r.value := by
  have hvalue : r.value.Kept maxDepth := by
    refine .object fun m hm => ?_
    simp only [List.mem_cons, List.not_mem_nil, or_false] at hm
    rcases hm with rfl | rfl | rfl | rfl
    · exact .ofUInt64 r.id
    · exact .text "2.0"
    · exact .text r.method
    · exact .array h
  rw [body, Decoder.decode_compact_value hvalue.lossless, if_pos hvalue.depth]

end RpcRequest

/-! ## Lookups in a contract -/

/-- the data of a call, for arguments that are addresses -/
def Call.dataOf (selector : String) (texts : List String) : String :=
  String.ofList ('0' :: 'x' :: selector.toList ++ texts.flatMap wordOf)

/-- a call of a contract as of the latest block -/
def RpcRequest.contractCall (id : UInt64) (contract data : String) : RpcRequest :=
  ⟨id, "eth_call", [.object (Members.ofList [("to", .text contract), ("data", .text data)]), .text "latest"]⟩

namespace RpcClient

variable {c : RpcClient} {server : RpcServer} {token selector : String} {arguments : List String}

/-- the client after a request was made -/
def after (c : RpcClient) (server : RpcServer) (r : RpcRequest) : RpcClient where
  nextId := c.nextId + 1
  sent := if (server r).received then r :: c.sent else c.sent

theorem sent_after (c : RpcClient) (server : RpcServer) (r : RpcRequest) :
    (c.after server r).sent = [r].filter (fun r => (server r).received) ++ c.sent := by
  cases hreceived : (server r).received <;> simp [after, hreceived]

theorem query_of_valid (h : ∀ t ∈ arguments ++ [token], IsAddress t) (c : RpcClient) (server : RpcServer) :
    let r := RpcRequest.contractCall c.nextId token (Call.dataOf selector arguments)
    c.query server token selector arguments =
      (c.after server r, ((server r).outcome "eth_call").bind Quantity.parse) := by
  intro r
  obtain ⟨harguments, htoken⟩ := List.forall_mem_append.1 h
  have hdata : Call.encode selector arguments = .ok (Call.dataOf selector arguments) :=
    Call.encode_eq_ok_iff.2 ⟨harguments, String.toList_ofList⟩
  obtain ⟨a, ha⟩ := Address.exists_parse?_iff.2 (htoken token List.mem_cons_self)
  rw [query, hdata, Address.parse_eq_ok_iff.2 ha]
  rfl

/-- the first address that is none is reported, and nothing is sent -/
theorem query_of_invalid {before after : List String} {bad : String}
    (h : arguments ++ [token] = before ++ bad :: after) (hbefore : ∀ t ∈ before, IsAddress t) (hbad : ¬ IsAddress bad)
    (c : RpcClient) (server : RpcServer) :
    c.query server token selector arguments = (c, .error (.invalidAddress bad)) := by
  rw [query]
  cases after using List.reverseRecOn with
  | nil =>
    obtain ⟨rfl, hlast⟩ := List.append_inj' h rfl
    obtain rfl := List.head_eq_of_cons_eq hlast
    rw [Call.encode_eq_ok_iff.2 ⟨hbefore, String.toList_ofList⟩, Address.parse_eq_error_iff.2 ⟨hbad, rfl⟩]
  | append_singleton after last =>
    have hsplit : arguments ++ [token] = (before ++ bad :: after) ++ [last] := by simpa using h
    obtain ⟨rfl, -⟩ := List.append_inj' hsplit rfl
    rw [Call.encode_eq_error_iff.2 (Call.words_eq_error_iff.2 ⟨before, bad, after, rfl, hbefore, hbad, rfl⟩)]

/-! ## Operations -/

inductive Operation where
  | blockNumber
  | call (contract data : String)
  | balanceOf (token owner : String)
  | allowance (token owner spender : String)
deriving DecidableEq, Repr

/-- what an operation gives -/
inductive Answer where
  | number (result : Except ServiceError UInt64)
  | data (result : Except ServiceError String)
  | quantity (result : Except ServiceError Nat)

namespace Operation

/-- the addresses that must be valid, in the order in which they are looked at -/
def addresses : Operation → List String
  | blockNumber | call .. => []
  | balanceOf token owner => [owner, token]
  | allowance token owner spender => [owner, spender, token]

def Valid (op : Operation) : Prop := ∀ t ∈ op.addresses, IsAddress t

instance : DecidablePred Valid := fun op => List.decidableBAll IsAddress op.addresses

/-- the request of an operation -/
def request (id : UInt64) : Operation → RpcRequest
  | blockNumber => ⟨id, "eth_blockNumber", []⟩
  | call contract data => .contractCall id contract data
  | balanceOf token owner => .contractCall id token (Call.dataOf Call.balanceOf [owner])
  | allowance token owner spender => .contractCall id token (Call.dataOf Call.allowance [owner, spender])

theorem id_request (op : Operation) (id : UInt64) : (op.request id).id = id := by
  cases op <;> rfl

/-- the parameters of a request are kept in its body -/
theorem params_request (op : Operation) (id : UInt64) : ∀ v ∈ (op.request id).params, v.Kept 125 := by
  have hcall : ∀ contract data, ∀ v ∈ (RpcRequest.contractCall id contract data).params, v.Kept 125 := by
    intro contract data v hv
    simp only [RpcRequest.contractCall, List.mem_cons, List.not_mem_nil, or_false] at hv
    rcases hv with rfl | rfl
    · refine .object fun m hm => ?_
      simp only [List.mem_cons, List.not_mem_nil, or_false] at hm
      rcases hm with rfl | rfl <;> exact .text _
    · exact .text "latest"
  cases op with
  | blockNumber => exact nofun
  | call contract data => exact hcall contract data
  | balanceOf token owner => exact hcall _ _
  | allowance token owner spender => exact hcall _ _

/-- what is made of the result of a request -/
def read (result : Except ServiceError String) : Operation → Answer
  | blockNumber => .number (result.bind blockNumberOf)
  | call .. => .data result
  | balanceOf .. | allowance .. => .quantity (result.bind Quantity.parse)

end Operation

def perform (c : RpcClient) (server : RpcServer) : Operation → RpcClient × Answer
  | .blockNumber => let (c, result) := c.blockNumber server; (c, .number result)
  | .call contract data => let (c, result) := c.call server contract data; (c, .data result)
  | .balanceOf token owner => let (c, result) := c.balanceOf server token owner; (c, .quantity result)
  | .allowance token owner spender =>
    let (c, result) := c.allowance server token owner spender
    (c, .quantity result)

section

variable {op : Operation}

/-- an operation makes one request, under the next id, whatever becomes of it -/
theorem perform_of_valid (h : op.Valid) (c : RpcClient) (server : RpcServer) :
    let r := op.request c.nextId
    c.perform server op = (c.after server r, op.read ((server r).outcome r.method)) := by
  cases op with
  | blockNumber | call => rfl
  | balanceOf token owner =>
    have haddresses : ∀ t ∈ [owner] ++ [token], IsAddress t := h
    rw [perform, balanceOf, query_of_valid haddresses]
    rfl
  | allowance token owner spender =>
    have haddresses : ∀ t ∈ [owner, spender] ++ [token], IsAddress t := h
    rw [perform, allowance, query_of_valid haddresses]
    rfl

/-- an operation with an address that is none makes no request and uses no id -/
theorem perform_of_invalid {before after : List String} {bad : String} (h : op.addresses = before ++ bad :: after)
    (hbefore : ∀ t ∈ before, IsAddress t) (hbad : ¬ IsAddress bad) (c : RpcClient) (server : RpcServer) :
    c.perform server op = (c, op.read (.error (.invalidAddress bad))) := by
  cases op with
  | blockNumber | call => simp [Operation.addresses] at h
  | balanceOf token owner =>
    rw [perform, balanceOf, query_of_invalid h hbefore hbad]
    rfl
  | allowance token owner spender =>
    rw [perform, allowance, query_of_invalid h hbefore hbad]
    rfl

/-- an operation that is not valid has a first address that is none -/
theorem Operation.exists_bad (h : ¬ op.Valid) :
    ∃ before bad after, op.addresses = before ++ bad :: after ∧ (∀ t ∈ before, IsAddress t) ∧ ¬ IsAddress bad := by
  cases hwords : Call.words op.addresses with
  | ok cs => exact absurd (Call.words_eq_ok_iff.1 hwords).1 h
  | error e =>
    obtain ⟨before, bad, after, hsplit, hbefore, hbad, -⟩ := Call.words_eq_error_iff.1 hwords
    exact ⟨before, bad, after, hsplit, hbefore, hbad⟩

end

/-! ## Runs -/

def run (c : RpcClient) (calls : List (Operation × RpcServer)) : RpcClient :=
  calls.foldl (fun c p => (c.perform p.2 p.1).1) c

/-- the requests of the valid operations, numbered from one, each with its reply -/
def made (calls : List (Operation × RpcServer)) : List (RpcRequest × HttpReply) :=
  (calls.filter (·.1.Valid)).mapIdx fun k p =>
    (p.1.request (.ofNat (k + 1)), p.2 (p.1.request (.ofNat (k + 1))))

theorem length_made (calls : List (Operation × RpcServer)) :
    (made calls).length = (calls.filter (·.1.Valid)).length := List.length_mapIdx

theorem made_append_of_valid {calls : List (Operation × RpcServer)} {p : Operation × RpcServer} (h : p.1.Valid) :
    made (calls ++ [p]) = made calls ++
      [(p.1.request (.ofNat ((made calls).length + 1)), p.2 (p.1.request (.ofNat ((made calls).length + 1))))] := by
  rw [length_made, made, List.filter_append, List.filter_cons_of_pos (by simpa using h), List.filter_nil,
    List.mapIdx_concat]
  rfl

theorem made_append_of_not_valid {calls : List (Operation × RpcServer)} {p : Operation × RpcServer}
    (h : ¬ p.1.Valid) : made (calls ++ [p]) = made calls := by
  rw [made, List.filter_append, List.filter_cons_of_neg (by simpa using h), List.filter_nil, List.append_nil]
  rfl

/-- the client after a run: the next id, and the requests that came to their servers -/
theorem run_eq (calls : List (Operation × RpcServer)) :
    ({} : RpcClient).run calls =
      ⟨.ofNat ((made calls).length + 1), (((made calls).filter (·.2.received)).map Prod.fst).reverse⟩ := by
  induction calls using List.reverseRecOn with
  | nil => rfl
  | append_singleton calls p ih =>
    have hrun : ({} : RpcClient).run (calls ++ [p]) = ((({} : RpcClient).run calls).perform p.2 p.1).1 := by
      rw [run, List.foldl_append]
      rfl
    rw [hrun, ih]
    by_cases hvalid : p.1.Valid
    · rw [perform_of_valid hvalid, made_append_of_valid hvalid, List.length_append, List.filter_append,
        List.map_append, List.reverse_append]
      generalize hr : p.1.request (.ofNat ((made calls).length + 1)) = r
      cases hreceived : (p.2 r).received with
      | true => simp [after, hreceived, UInt64.ofNat_add]
      | false => simp [after, hreceived, UInt64.ofNat_add]
    · obtain ⟨before, bad, after, hsplit, hbefore, hbad⟩ := Operation.exists_bad hvalid
      rw [perform_of_invalid hsplit hbefore hbad, made_append_of_not_valid hvalid]

/-- the request at a place is that of an operation, under the number of the place -/
theorem request_made {calls : List (Operation × RpcServer)} {k : Nat} {r : RpcRequest} {reply : HttpReply}
    (hk : (made calls)[k]? = some (r, reply)) : ∃ op : Operation, r = op.request (.ofNat (k + 1)) := by
  rw [made, List.getElem?_mapIdx] at hk
  obtain ⟨p, -, hp⟩ := Option.map_eq_some_iff.1 hk
  exact ⟨p.1, (Prod.mk.inj hp).1.symm⟩

/-- the request at a place has the number of that place -/
theorem id_made {calls : List (Operation × RpcServer)} (h : calls.length < 2 ^ 64) {k : Nat} {r : RpcRequest}
    {reply : HttpReply} (hk : (made calls)[k]? = some (r, reply)) : r.id.toNat = k + 1 := by
  have hsize : UInt64.size = 2 ^ 64 := rfl
  have hplace : k < (made calls).length := (List.getElem?_eq_some_iff.1 hk).1
  have hcount : (made calls).length ≤ calls.length := by
    rw [length_made]
    exact List.length_filter_le _ _
  obtain ⟨op, rfl⟩ := request_made hk
  rw [Operation.id_request, UInt64.toNat_ofNat_of_lt' (by omega)]

/-- the body of the request at a place is read back with that number in it -/
theorem body_made {calls : List (Operation × RpcServer)} (h : calls.length < 2 ^ 64) {k : Nat} {r : RpcRequest}
    {reply : HttpReply} (hk : (made calls)[k]? = some (r, reply)) :
    (∃ n : Whole, n.val = k + 1 ∧ r.value = .object [("id", .number (.whole n)), ("jsonrpc", .text "2.0"),
      ("method", .text r.method), ("params", .array r.params)]) ∧ Json.decode Decoder.value r.body = .ok r.value := by
  have hid := id_made h hk
  refine ⟨⟨⟨r.id.toNat, _, _⟩, ?_, r.value_eq⟩, ?_⟩
  · show (r.id.toNat : Int) = k + 1
    rw [hid]
    rfl
  · obtain ⟨op, rfl⟩ := request_made hk
    exact RpcRequest.decode_body (op.params_request _)

/-- the request of an operation is the one at the place of its turn -/
theorem made_split {before after : List (Operation × RpcServer)} {p : Operation × RpcServer} (h : p.1.Valid) :
    let r := p.1.request (({} : RpcClient).run before).nextId
    (made (before ++ p :: after))[(made before).length]? = some (r, p.2 r) := by
  intro r
  have hr : p.1.request (.ofNat ((before.filter (·.1.Valid)).length + 1)) = r := by
    rw [← length_made]
    exact congrArg (fun c : RpcClient => p.1.request c.nextId) (run_eq before).symm
  rw [length_made, made, List.filter_append, List.filter_cons_of_pos (by simpa using h), List.getElem?_mapIdx,
    List.getElem?_append_right le_rfl, Nat.sub_self, List.getElem?_cons_zero, Option.map_some, hr]

/-- **Requests are numbered from one without a gap, and their replies are read.** An operation with an address that is
none leaves the client as it is. Every other operation makes the request of its turn, whatever became of those before
it, and gives what is read from the reply: its error, whatever the result is, or else its result, or else that it is of
no use. The body of a request is an object with its number, its method and its parameters. Where there is always a
server, the requests come to it as they are numbered. -/
theorem requests_numbered (calls : List (Operation × RpcServer)) (h : calls.length < 2 ^ 64) :
    (∀ (k : Nat) r reply, (made calls)[k]? = some (r, reply) → r.id.toNat = k + 1 ∧
        (∃ n : Whole, n.val = k + 1 ∧ r.value = .object [("id", .number (.whole n)), ("jsonrpc", .text "2.0"),
          ("method", .text r.method), ("params", .array r.params)]) ∧
        Json.decode Decoder.value r.body = .ok r.value) ∧
      (({} : RpcClient).run calls).sent.reverse = ((made calls).filter (·.2.received)).map Prod.fst ∧
      ((∀ q ∈ made calls, q.2.received = true) →
        ∀ k r, (({} : RpcClient).run calls).sent.reverse[k]? = some r → r.id.toNat = k + 1) ∧
      (∀ before p after, calls = before ++ p :: after →
        let c := ({} : RpcClient).run before
        let r := p.1.request c.nextId
        (p.1.Valid → (made calls)[(made before).length]? = some (r, p.2 r) ∧
          c.perform p.2 p.1 = (c.after p.2 r, p.1.read ((p.2 r).outcome r.method))) ∧
        ∀ good bad rest, p.1.addresses = good ++ bad :: rest → (∀ t ∈ good, IsAddress t) → ¬ IsAddress bad →
          c.perform p.2 p.1 = (c, p.1.read (.error (.invalidAddress bad)))) ∧
      ∀ (reply : HttpReply) (method : String),
        (∀ d, reply.Reads d → HttpReply.Gives d method (reply.outcome method)) ∧
        ((∀ d, ¬ reply.Reads d) → reply.outcome method = .error .http) := by
  have hsent : (({} : RpcClient).run calls).sent.reverse = ((made calls).filter (·.2.received)).map Prod.fst := by
    rw [run_eq, List.reverse_reverse]
  refine ⟨fun k r reply hk => ⟨id_made h hk, body_made h hk⟩, hsent, fun hreceived k r hr => ?_, ?_, fun reply method =>
    ⟨fun d hd => HttpReply.gives_of_reads hd method, fun hd => HttpReply.outcome_of_not_reads hd method⟩⟩
  · rw [hsent, List.filter_eq_self.2 hreceived, List.getElem?_map] at hr
    obtain ⟨q, hq, rfl⟩ := Option.map_eq_some_iff.1 hr
    exact id_made h hq
  · rintro before p after rfl c r
    exact ⟨fun hvalid => ⟨made_split hvalid, perform_of_valid hvalid c p.2⟩,
      fun good bad rest hsplit hgood hbad => perform_of_invalid hsplit hgood hbad c p.2⟩

/-- no server for the first request, a token that is no address, and then the second request -/
theorem requests_numbered_past_failures :
    let server : RpcServer := fun _ => .response 200 "\x7b\"result\": \"0x1b4\"\x7d"
    let calls : List (Operation × RpcServer) :=
      [(.blockNumber, fun _ => .unreachable),
        (.balanceOf "0x12" "0xdef1c0ded9bec7f1a1670819833240f027b25eff", server), (.blockNumber, server)]
    let second : RpcRequest := ⟨2, "eth_blockNumber", []⟩
    calls.length < 2 ^ 64 ∧ (({} : RpcClient).run calls).sent.map (·.id) = [2] ∧
      second.body =
        "\x7b\"id\":2,\"jsonrpc\":\"2.0\",\"method\":\"eth_blockNumber\",\"params\":[]\x7d" ∧
      (made calls)[1]? = some (second, server second) ∧ Json.decode Decoder.value second.body = .ok second.value ∧
      (({} : RpcClient).run (calls.take 1)).perform server
          (.balanceOf "0x12" "0xdef1c0ded9bec7f1a1670819833240f027b25eff") =
        (({} : RpcClient).run (calls.take 1), .quantity (.error (.invalidAddress "0x12"))) := by
  intro server calls second
  have hlength : calls.length < 2 ^ 64 := by decide
  obtain ⟨hmade, hsent, -, hcalls, -⟩ := requests_numbered calls hlength
  have hsecond : (made calls)[1]? = some (second, server second) := rfl
  obtain ⟨-, -, hbody⟩ := hmade 1 _ _ hsecond
  refine ⟨hlength, ?_, by decide +kernel, hsecond, hbody, ?_⟩
  · have hids : (((made calls).filter (·.2.received)).map Prod.fst).map (·.id) = [2] := by decide +kernel
    rw [← hsent, List.map_reverse, List.reverse_eq_iff] at hids
    exact hids
  · exact (hcalls (calls.take 1) _ (calls.drop 2) rfl).2 ["0xdef1c0ded9bec7f1a1670819833240f027b25eff"] "0x12" [] rfl
      (by decide +kernel) (by decide +kernel)

end RpcClient

end ReplicatedOrders
