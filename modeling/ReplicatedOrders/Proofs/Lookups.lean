/-
Lookups: what the source of token balances asks, and what it makes of the replies.

An order names a maker and a token if its off-chain data are an object with a valid address under each of the two
names. Only then is anything asked, and by then every address has been checked, so the client never refuses one.
- `HttpReply.carries_iff`: the replies that carry a quantity.
- `TokenSource.convert_eq_ok_iff`, `TokenSource.convert_eq_error`: the orders that name what is looked up.
- `TokenSource.fetch_of_names`: the two requests, and the balance and the allowance from the replies to them.
- `TokenSource.lookups_exact`: all of it.
-/
import ReplicatedOrders.Chain.TokenSource
import ReplicatedOrders.Proofs.Quantities
import ReplicatedOrders.Proofs.Requests

namespace ReplicatedOrders

open Json

/-! ## Quantities in replies -/

namespace HttpReply

variable {reply : HttpReply} {n : Nat}

/-- a response without an error whose result is the text of this quantity -/
def Carries (reply : HttpReply) (n : Nat) : Prop :=
  ∃ d cs, reply.Reads d ∧ (∀ e, d.Holds "error" 1 e → e = .null) ∧
    d.Holds "result" 0 (.text (String.ofList ('0' :: 'x' :: cs))) ∧ Hex.IsNumeral cs ∧ n = Hex.denoted cs

/-- the quantity that a reply gives -/
def quantity (reply : HttpReply) : Except ServiceError Nat := (reply.outcome "eth_call").bind Quantity.parse

theorem quantity_eq_ok_iff : reply.quantity = .ok n ↔ reply.Carries n := by
  have hbind : reply.quantity = .ok n ↔ ∃ hex, reply.outcome "eth_call" = .ok hex ∧ Quantity.parse hex = .ok n := by
    rw [quantity]
    cases reply.outcome "eth_call" <;> simp [Except.bind]
  simp only [hbind, outcome_eq_ok_iff, Quantity.parse_eq_ok_iff]
  constructor
  · rintro ⟨hex, ⟨d, hd, hnull, hresult⟩, cs, hcs, hnumeral, hn⟩
    rw [← hex.ofList_toList, hcs] at hresult
    exact ⟨d, cs, hd, hnull, hresult, hnumeral, hn⟩
  · rintro ⟨d, cs, hd, hnull, hresult, hnumeral, hn⟩
    exact ⟨_, ⟨d, hd, hnull, hresult⟩, cs, String.toList_ofList, hnumeral, hn⟩

theorem outcome_ne_invalidAddress (method text : String) : reply.outcome method ≠ .error (.invalidAddress text) := by
  intro h
  cases reply with
  | unreachable | dropped => cases h
  | response status body =>
    simp only [outcome] at h
    generalize decode RpcBody.decoder (if hasBody status then body else "") = read at h
    split at h
    · cases h
    · cases read with
      | error e => cases h
      | ok r =>
        simp only [RpcBody.outcome] at h
        split at h <;> cases h

/-- what is wrong with a reply is never an address -/
theorem quantity_ne_invalidAddress (text : String) : reply.quantity ≠ .error (.invalidAddress text) := by
  intro h
  cases hresult : reply.outcome "eth_call" with
  | ok hex =>
    rw [quantity, hresult] at h
    cases (Quantity.parse_eq_error_iff.1 h).2
  | error e =>
    rw [quantity, hresult] at h
    obtain rfl := Except.error.inj h
    exact outcome_ne_invalidAddress _ _ hresult

end HttpReply

/-! ## Orders -/

/-- the off-chain data of the order are an object with these two addresses -/
def Order.Names (o : Order) (maker token : String) : Prop :=
  ∃ data : Members, o.offChainData = .object data ∧
    data.get? TokenLookup.makerField = some (.text maker) ∧ IsAddress maker ∧
    data.get? TokenLookup.tokenField = some (.text token) ∧ IsAddress token

namespace TokenSource

variable {t : TokenSource} {o : Order} {l : TokenLookup} {maker token : String}

theorem addressField_eq_ok_iff {hash field value : String} {data : Members} :
    addressField hash data field = .ok value ↔ data.get? field = some (.text value) ∧ IsAddress value := by
  rw [addressField]
  split
  · next value' hvalue =>
    rw [hvalue]
    split_ifs with hvalid
    · rw [Option.isSome_iff_exists, Address.exists_parse?_iff] at hvalid
      simp only [Except.ok.injEq, Option.some.injEq, Value.text.injEq]
      exact ⟨fun h => ⟨h, h ▸ hvalid⟩, And.left⟩
    · rw [Option.isSome_iff_exists, Address.exists_parse?_iff] at hvalid
      refine iff_of_false nofun ?_
      rintro ⟨h, haddress⟩
      obtain rfl := Value.text.inj (Option.some.inj h)
      exact hvalid haddress
  · next hnone => exact iff_of_false nofun fun h => hnone value h.1

theorem convert_eq_ok_iff : t.convert o = .ok l ↔ o.Names l.maker l.makerToken ∧ l.spender = t.spender := by
  rw [convert]
  split
  · next data hdata =>
    have hnames : o.Names l.maker l.makerToken ↔
        addressField o.hash data TokenLookup.makerField = .ok l.maker ∧
          addressField o.hash data TokenLookup.tokenField = .ok l.makerToken := by
      simp [Order.Names, hdata, addressField_eq_ok_iff, and_assoc]
    rw [hnames]
    cases addressField o.hash data TokenLookup.makerField with
    | error e => exact iff_of_false nofun nofun
    | ok maker =>
      cases addressField o.hash data TokenLookup.tokenField with
      | error e => exact iff_of_false nofun nofun
      | ok token =>
        constructor
        · intro h
          obtain rfl := Except.ok.inj h
          exact ⟨⟨rfl, rfl⟩, rfl⟩
        · rintro ⟨⟨hmaker, htoken⟩, hspender⟩
          obtain rfl := Except.ok.inj hmaker
          obtain rfl := Except.ok.inj htoken
          rw [← hspender]
          rfl
  · next hnone =>
    refine iff_of_false nofun ?_
    rintro ⟨⟨data, hdata, -⟩, -⟩
    exact hnone data hdata

theorem spender_of_make {family spender : String} (h : make family spender = .ok t) : t.spender = spender := by
  rw [make] at h
  split_ifs at h
  obtain rfl := Except.ok.inj h
  rfl

/-! ## The lookup -/

/-- the balance of the maker is asked for under this id -/
def balanceRequest (id : UInt64) (l : TokenLookup) : RpcRequest :=
  .contractCall id l.makerToken (Call.dataOf Call.balanceOf [l.maker])

/-- what the spender may take from the maker is asked for under this id -/
def allowanceRequest (id : UInt64) (l : TokenLookup) : RpcRequest :=
  .contractCall id l.makerToken (Call.dataOf Call.allowance [l.maker, l.spender])

/-- an order that names nothing to look up is refused before anything is asked -/
theorem fetch_of_not_names (h : ¬ ∃ maker token, o.Names maker token) (c : RpcClient) (server : RpcServer) :
    ∃ e, t.fetch c server o = (c, .error (.conversion e)) := by
  cases hconvert : t.convert o with
  | ok l => exact absurd ⟨_, _, (convert_eq_ok_iff.1 hconvert).1⟩ h
  | error e => exact ⟨e, by rw [fetch, hconvert]⟩

/-- what the two replies give -/
def answer (l : TokenLookup) (balance allowance : Except ServiceError Nat) : Except ReplicaError OnChainData :=
  match balance, allowance with
  | .error e, _ | .ok _, .error e => .error (.service e)
  | .ok b, .ok a => .ok ⟨l.value, b, a⟩

theorem fetch_of_names (h : o.Names maker token) (c : RpcClient) (server : RpcServer) :
    let l : TokenLookup := ⟨maker, token, t.spender⟩
    let first := balanceRequest c.nextId l
    let second := allowanceRequest (c.nextId + 1) l
    t.fetch c server o =
      ((c.after server first).after server second, answer l (server first).quantity (server second).quantity) := by
  intro l first second
  have hconvert : t.convert o = .ok l := convert_eq_ok_iff.2 ⟨h, rfl⟩
  obtain ⟨-, -, -, hmaker, -, htoken⟩ := h
  have hspender : IsAddress t.spender := Address.exists_parse?_iff.1 (Option.isSome_iff_exists.1 t.spender_valid)
  have hfirst : ∀ x ∈ [maker] ++ [token], IsAddress x := by simp [hmaker, htoken]
  have hsecond : ∀ x ∈ [maker, t.spender] ++ [token], IsAddress x := by simp [hmaker, htoken, hspender]
  have hbalance : c.balanceOf server l.makerToken l.maker = (c.after server first, (server first).quantity) :=
    RpcClient.query_of_valid hfirst c server
  have hallowance : (c.after server first).allowance server l.makerToken l.maker l.spender =
      ((c.after server first).after server second, (server second).quantity) :=
    RpcClient.query_of_valid hsecond (c.after server first) server
  rw [fetch, hconvert]
  simp only [hbalance, hallowance]
  cases (server first).quantity with
  | error e => rfl
  | ok b => cases (server second).quantity <;> rfl

theorem answer_eq_ok_iff {l : TokenLookup} {balance allowance : Except ServiceError Nat} {x : OnChainData} :
    answer l balance allowance = .ok x ↔ ∃ b a, balance = .ok b ∧ allowance = .ok a ∧ x = ⟨l.value, b, a⟩ := by
  cases balance <;> cases allowance <;> simp [answer, eq_comm]

theorem answer_eq_error_iff {l : TokenLookup} {balance allowance : Except ServiceError Nat} {e : ReplicaError} :
    answer l balance allowance = .error e ↔
      ∃ cause, (balance = .error cause ∨ (∃ b, balance = .ok b) ∧ allowance = .error cause) ∧ e = .service cause := by
  cases balance <;> cases allowance <;> simp [answer, eq_comm]

/-- **Only valid addresses are asked about, and each reply is read as what was asked.** A source that was made refuses
an order before it asks anything exactly if the order does not name a maker and a token; no address is refused after
that. Otherwise it asks the token for the balance of the maker and for what the spender may take of it, once each. It
gives the addresses as they are written and the quantities of the two replies, in that order, and it does exactly if
both replies carry one. -/
theorem lookups_exact {family spender : String} {t : TokenSource} (h : make family spender = .ok t) (c : RpcClient)
    (server : RpcServer) (o : Order) :
    (∀ text, (t.fetch c server o).2 ≠ .error (.service (.invalidAddress text))) ∧
      ((∃ e, (t.fetch c server o).2 = .error (.conversion e)) ↔ ¬ ∃ maker token, o.Names maker token) ∧
      ((¬ ∃ maker token, o.Names maker token) → (t.fetch c server o).1 = c) ∧
      (∀ x, (t.fetch c server o).2 = .ok x → x.orderInfo ≠ .null) ∧
      ∀ maker token, o.Names maker token →
        let balance := RpcRequest.contractCall c.nextId token (Call.dataOf Call.balanceOf [maker])
        let allowance := RpcRequest.contractCall (c.nextId + 1) token (Call.dataOf Call.allowance [maker, spender])
        (t.fetch c server o).1.sent = ([allowance, balance].filter fun r => (server r).received) ++ c.sent ∧
          ∀ x, (t.fetch c server o).2 = .ok x ↔
            ∃ b a, (server balance).Carries b ∧ (server allowance).Carries a ∧
              x = ⟨.object (Members.ofList [("maker", .text maker), ("makerToken", .text token),
                ("spender", .text spender)]), b, a⟩ := by
  obtain rfl := spender_of_make h
  by_cases hnames : ∃ maker token, o.Names maker token
  · have hanswer : ∃ l first second,
        (t.fetch c server o).2 = answer l (server first).quantity (server second).quantity := by
      obtain ⟨maker, token, hnames⟩ := hnames
      exact ⟨_, _, _, congrArg Prod.snd (fetch_of_names hnames c server)⟩
    obtain ⟨l, first, second, hanswer⟩ := hanswer
    refine ⟨fun text htext => ?_, iff_of_false ?_ (not_not.2 hnames), fun hnone => absurd hnames hnone, fun x hx => ?_,
      fun maker token hnames => ⟨?_, fun x => ?_⟩⟩
    · rw [hanswer, answer_eq_error_iff] at htext
      obtain ⟨cause, hcause | ⟨-, hcause⟩, htext⟩ := htext <;> obtain rfl := ReplicaError.service.inj htext <;>
        exact HttpReply.quantity_ne_invalidAddress text hcause
    · rintro ⟨e, he⟩
      rw [hanswer, answer_eq_error_iff] at he
      obtain ⟨cause, -, he⟩ := he
      cases he
    · rw [hanswer, answer_eq_ok_iff] at hx
      obtain ⟨b, a, -, -, rfl⟩ := hx
      exact nofun
    · rw [fetch_of_names hnames c server]
      rw [RpcClient.sent_after, RpcClient.sent_after, ← List.append_assoc, ← List.filter_append]
      rfl
    · rw [fetch_of_names hnames c server, answer_eq_ok_iff]
      simp only [HttpReply.quantity_eq_ok_iff]
      rfl
  · obtain ⟨e, he⟩ := fetch_of_not_names (t := t) hnames c server
    rw [he]
    exact ⟨nofun, iff_of_true ⟨e, rfl⟩ hnames, fun _ => rfl, nofun,
      fun maker token hmaker => absurd ⟨maker, token, hmaker⟩ hnames⟩

/-- a balance and an allowance that differ, from replies in the two forms of a record -/
theorem lookups_exact_two_replies :
    let spender := "0xdef1c0ded9bec7f1a1670819833240f027b25eff"
    let maker := "0xA0b86991c6218b36c1d19D4a2e9Eb0cE3606eB48"
    let token := "0X6B175474E89094C44Da98b954EedeAC495271d0F"
    let server : RpcServer := fun r =>
      .response 200 (if r.id = 1 then "\x7b\"result\": \"0x2a\"\x7d" else "[\"0x7\", null]")
    let o : Order :=
      { hash := "0x1", offChainData := .object [("maker", .text maker), ("makerToken", .text token)] }
    ∃ t x, make "erc20" spender = .ok t ∧ o.Names maker token ∧ (t.fetch {} server o).2 = .ok x ∧
      x.makerBalance = 42 ∧ x.makerAllowance = 7 := by
  intro spender maker token server o
  have hspender : (Address.parse? spender).isSome = true := by decide +kernel
  have hmake : make "erc20" spender = .ok ⟨"erc20", spender, hspender⟩ := dif_pos hspender
  have hnames : o.Names maker token := ⟨_, rfl, rfl, by decide +kernel, rfl, by decide +kernel⟩
  have hbalance : (server (.contractCall 1 token (Call.dataOf Call.balanceOf [maker]))).quantity = .ok 42 := by
    decide +kernel
  have hallowance :
      (server (.contractCall 2 token (Call.dataOf Call.allowance [maker, spender]))).quantity = .ok 7 := by
    decide +kernel
  obtain ⟨-, -, -, -, hlookups⟩ := lookups_exact hmake {} server o
  have hok := ((hlookups maker token hnames).2 _).2
    ⟨42, 7, HttpReply.quantity_eq_ok_iff.1 hbalance, HttpReply.quantity_eq_ok_iff.1 hallowance, rfl⟩
  exact ⟨_, _, hmake, hnames, hok, rfl, rfl⟩

end TokenSource

end ReplicatedOrders
