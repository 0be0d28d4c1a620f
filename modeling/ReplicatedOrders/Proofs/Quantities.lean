/-
Quantities: which texts are a hexadecimal quantity, and the number that each denotes.

Nothing bounds a quantity: every digit counts, whatever its case, and only a block number has to fit 64 bits.
`Hex.IsNumeral` and `Hex.denoted` say what is read without saying how it is read.
- `Hex.digitIn_sixteen`: digits by their characters.
- `Hex.denoted_of_toLower`: the digits of a number denote it, in either case and with zeros in front.
- `Quantity.parse_eq_ok_iff`, `Quantity.parse_eq_error_iff`: what is read, and what is refused with which fault.
- `RpcClient.blockNumber_eq_ok_iff`, `RpcClient.blockNumber_eq_error_iff`: the number of the latest block.
- `Quantity.parse_exact`: all of it.
-/
import ReplicatedOrders.Chain.Rpc
import ReplicatedOrders.Proofs.Numerals

namespace ReplicatedOrders

/-! ## Characters -/

/-- a fact about characters, from those of ASCII and from those beyond -/
theorem forall_char {p : Char → Prop} (ascii : ∀ m : Fin 128, p (Char.ofNat m.val))
    (beyond : ∀ c : Char, 128 ≤ c.toNat → p c) (c : Char) : p c := by
  rcases Nat.lt_or_ge c.toNat 128 with h | h
  · have hc := ascii ⟨c.toNat, h⟩
    rwa [Char.ofNat_toNat] at hc
  · exact beyond c h

/-- a character beyond ASCII is beyond every character of ASCII -/
theorem not_le_of_beyond {c : Char} (hc : 128 ≤ c.toNat) {d : Char} (hd : d.toNat < 128) : ¬ c ≤ d := by
  intro h
  have : c.toNat ≤ d.toNat := UInt32.le_iff_toNat_le.1 h
  omega

namespace Hex

/-- the digits of either case -/
def isDigit (c : Char) : Bool := ('0' ≤ c && c ≤ '9') || ('a' ≤ c && c ≤ 'f') || ('A' ≤ c && c ≤ 'F')

/-- the number that a digit stands for; the letters of either case count on from ten -/
def valueOf (c : Char) : Nat := if c ≤ '9' then c.toNat - '0'.toNat else 10 + (c.toLower.toNat - 'a'.toNat)

theorem isDigit_beyond {c : Char} (hc : 128 ≤ c.toNat) : isDigit c = false := by
  have hnine : ¬ c ≤ '9' := not_le_of_beyond hc (by decide)
  have hlower : ¬ c ≤ 'f' := not_le_of_beyond hc (by decide)
  have hupper : ¬ c ≤ 'F' := not_le_of_beyond hc (by decide)
  simp [isDigit, hnine, hlower, hupper]

theorem digitIn_sixteen (c : Char) : Numeral.digitIn 16 c = if isDigit c then some (valueOf c) else none := by
  induction c using forall_char with
  | ascii m => revert m; decide
  | beyond c hc =>
    have hnine : ¬ c ≤ '9' := not_le_of_beyond hc (by decide)
    have hlower : ¬ c ≤ 'z' := not_le_of_beyond hc (by decide)
    have hupper : ¬ c ≤ 'Z' := not_le_of_beyond hc (by decide)
    simp [isDigit_beyond hc, Numeral.digitIn, Numeral.digitOf, hnine, hlower, hupper]

theorem toLower_beyond {c : Char} (hc : 128 ≤ c.toNat) : c.toLower = c :=
  dif_neg fun h => not_le_of_beyond (d := 'Z') hc (by decide) h.2

/-- the case of a digit does not matter -/
theorem digitIn_toLower (c : Char) : Numeral.digitIn 16 c.toLower = Numeral.digitIn 16 c := by
  induction c using forall_char with
  | ascii m => revert m; decide
  | beyond c hc => rw [toLower_beyond hc]

theorem toLower_of_digitIn {c : Char} {d : Nat} (h : Numeral.digitIn 16 c = some d) : d < 16 ∧ c.toLower = digit d := by
  have hall : ∀ c : Char, ∀ d ∈ Numeral.digitIn 16 c, d < 16 ∧ c.toLower = digit d := by
    intro c
    induction c using forall_char with
    | ascii m => revert m; decide
    | beyond c hc =>
      rw [digitIn_sixteen, isDigit_beyond hc]
      exact nofun
  exact hall c d h

theorem isDigit_of_digitIn {c : Char} {d : Nat} (h : Numeral.digitIn 16 c = some d) : isDigit c = true := by
  rw [digitIn_sixteen] at h
  split at h
  · next hc => exact hc
  · cases h

theorem isDigit_digit {d : Nat} (hd : d < 16) : isDigit (digit d) = true := isDigit_of_digitIn (digitIn_digit d hd)

theorem isDigit_iff {c : Char} : isDigit c = true ↔ ∃ d, d < 16 ∧ c.toLower = digit d := by
  constructor
  · intro h
    have hread := digitIn_sixteen c
    rw [h, if_pos rfl] at hread
    exact ⟨_, toLower_of_digitIn hread⟩
  · rintro ⟨d, hd, hc⟩
    have hread := digitIn_digit d hd
    rw [← hc, digitIn_toLower] at hread
    exact isDigit_of_digitIn hread

/-! ## Numerals -/

/-- a hexadecimal numeral: at most one plus, a digit, and then digits and underscores -/
def IsNumeral (cs : List Char) : Prop :=
  ∃ sign c rest, Numeral.IsSign sign ∧ isDigit c = true ∧ (∀ x ∈ rest, isDigit x = true ∨ x = '_') ∧
    cs = sign ++ c :: rest

theorem isNumeral_of_digits {cs : List Char} (hne : cs ≠ []) (h : ∀ c ∈ cs, isDigit c = true) : IsNumeral cs := by
  obtain ⟨c, rest, rfl⟩ := List.exists_cons_of_ne_nil hne
  obtain ⟨hc, hrest⟩ := List.forall_mem_cons.1 h
  exact ⟨[], c, rest, Or.inl rfl, hc, fun x hx => Or.inl (hrest x hx), rfl⟩

/-- the number that the digits among some characters denote; the other characters do not count -/
def denoted (cs : List Char) : Nat := Nat.ofDigits 16 ((cs.filter isDigit).map valueOf).reverse

theorem isLong_sixteen_iff {cs : List Char} {n : Nat} : Numeral.IsLong 16 cs n ↔ IsNumeral cs ∧ n = denoted cs :=
  Numeral.isLong_iff_of_digitIn digitIn_sixteen

theorem denoted_eq (cs : List Char) : denoted cs = Numeral.ofDigits 16 (cs.filterMap (Numeral.digitIn 16)) := by
  rw [denoted, Numeral.filterMap_digitIn digitIn_sixteen, Numeral.ofDigits_eq]

/-- the case of the digits does not matter -/
theorem denoted_map_toLower (cs : List Char) : denoted (cs.map Char.toLower) = denoted cs := by
  rw [denoted_eq, denoted_eq, List.filterMap_map]
  exact congrArg (fun f => Numeral.ofDigits 16 (cs.filterMap f)) (funext digitIn_toLower)

theorem denoted_snoc (cs : List Char) {d : Nat} (hd : d < 16) : denoted (cs ++ [digit d]) = 16 * denoted cs + d := by
  rw [denoted_eq, denoted_eq, List.filterMap_append, List.filterMap_cons_some (digitIn_digit d hd),
    List.filterMap_nil, Numeral.ofDigits, List.foldl_append]
  rfl

theorem denoted_zeros (zeros : Nat) (cs : List Char) : denoted (List.replicate zeros '0' ++ cs) = denoted cs := by
  induction zeros with
  | zero => rfl
  | succ zeros ih =>
    have hzero : Numeral.digitIn 16 '0' = some 0 := by decide
    rw [List.replicate_succ, List.cons_append, denoted_eq, List.filterMap_cons_some hzero, ← ih, denoted_eq]
    rfl

theorem exists_of_mem_toDigits {n : Nat} {c : Char} (h : c ∈ Nat.toDigits 16 n) : ∃ d, d < 16 ∧ c = digit d := by
  induction n using Nat.strongRecOn with
  | ind n ih =>
    rcases Nat.lt_or_ge n 16 with hn | hn
    · rw [Nat.toDigits_of_lt_base hn, List.mem_singleton] at h
      exact ⟨n, hn, h⟩
    · rw [Nat.toDigits_of_base_le (by decide) hn, List.mem_append, List.mem_singleton] at h
      rcases h with h | h
      · exact ih (n / 16) (by omega) h
      · exact ⟨n % 16, Nat.mod_lt n (by decide), h⟩

theorem denoted_toDigits (n : Nat) : denoted (Nat.toDigits 16 n) = n := by
  induction n using Nat.strongRecOn with
  | ind n ih =>
    rcases Nat.lt_or_ge n 16 with hn | hn
    · rw [Nat.toDigits_of_lt_base hn]
      have hdigit := denoted_snoc [] hn
      rw [show denoted [] = 0 from rfl] at hdigit
      simpa [digit] using hdigit
    · rw [Nat.toDigits_of_base_le (by decide) hn]
      have hlast := denoted_snoc (Nat.toDigits 16 (n / 16)) (Nat.mod_lt n (by decide : 0 < 16))
      rw [ih (n / 16) (by omega)] at hlast
      rw [← digit, hlast]
      omega

/-- the digits of a number in either case, with any zeros in front, denote the number -/
theorem denoted_of_toLower {cs : List Char} {zeros n : Nat}
    (h : cs.map Char.toLower = List.replicate zeros '0' ++ Nat.toDigits 16 n) : denoted cs = n := by
  rw [← denoted_map_toLower, h, denoted_zeros, denoted_toDigits]

/-- so they are a numeral -/
theorem isNumeral_of_toLower {cs : List Char} {zeros n : Nat}
    (h : cs.map Char.toLower = List.replicate zeros '0' ++ Nat.toDigits 16 n) : IsNumeral cs := by
  refine isNumeral_of_digits ?_ fun c hc => isDigit_iff.2 ?_
  · rintro rfl
    rw [List.map_nil, eq_comm, List.append_eq_nil_iff] at h
    exact Nat.toDigits_ne_nil h.2
  · have hlower : c.toLower ∈ List.replicate zeros '0' ++ Nat.toDigits 16 n := h ▸ List.mem_map_of_mem hc
    rcases List.mem_append.1 hlower with hzero | hmem
    · exact ⟨0, by decide, (List.mem_replicate.1 hzero).2⟩
    · exact exists_of_mem_toDigits hmem

end Hex

/-! ## Quantities -/

namespace Quantity

variable {text : String} {n : Nat}

theorem parse_eq_ok_iff :
    parse text = .ok n ↔ ∃ cs, text.toList = '0' :: 'x' :: cs ∧ Hex.IsNumeral cs ∧ n = Hex.denoted cs := by
  have hlong : ∀ cs, Numeral.parseLong 16 (String.ofList cs) = .ok n ↔ Hex.IsNumeral cs ∧ n = Hex.denoted cs := by
    intro cs
    rw [Numeral.parseLong_eq_ok_iff, String.toList_ofList, Hex.isLong_sixteen_iff]
  unfold parse
  split
  · next h =>
    refine iff_of_false nofun ?_
    rintro ⟨cs, hcs, ⟨sign, c, rest, -, -, -, rfl⟩, -⟩
    rw [h] at hcs
    simp at hcs
  · next cs _ h =>
    have hread : (∃ cs', text.toList = '0' :: 'x' :: cs' ∧ Hex.IsNumeral cs' ∧ n = Hex.denoted cs') ↔
        Hex.IsNumeral cs ∧ n = Hex.denoted cs := by
      rw [h]
      simp
    rw [hread, ← hlong]
    cases Numeral.parseLong 16 (String.ofList cs) <;> simp
  · next h =>
    refine iff_of_false nofun ?_
    rintro ⟨cs, hcs, -⟩
    exact h cs hcs

/-- every fault is that of a text without digits or that of a text that is no quantity -/
theorem parse_eq_error_iff {e : ServiceError} :
    parse text = .error e ↔
      (∀ n, parse text ≠ .ok n) ∧ e = .invalidResponse (if text = "0x" then .emptyHex text else .notHex text) := by
  have hempty : text = "0x" ↔ text.toList = ['0', 'x'] := by
    rw [← String.toList_inj]
    rfl
  unfold parse
  split
  · next h =>
    rw [if_pos (hempty.2 h)]
    simp [eq_comm]
  · next cs hne h =>
    rw [if_neg (fun heq => hne (by simpa [h] using hempty.1 heq))]
    cases Numeral.parseLong 16 (String.ofList cs) <;> simp [eq_comm]
  · next h =>
    rw [if_neg (fun heq => h [] (hempty.1 heq))]
    simp [eq_comm]

end Quantity

/-! ## The number of the latest block -/

namespace RpcClient

variable {c : RpcClient} {server : RpcServer}

/-- what the reply to the next request for the number of the latest block holds -/
def blockReply (c : RpcClient) (server : RpcServer) : Except ServiceError String :=
  (server ⟨c.nextId, "eth_blockNumber", []⟩).outcome "eth_blockNumber"

theorem blockNumber_snd (c : RpcClient) (server : RpcServer) :
    (c.blockNumber server).2 = (c.blockReply server).bind blockNumberOf := rfl

theorem blockNumberOf_eq_ok_iff {hex : String} {v : UInt64} :
    blockNumberOf hex = .ok v ↔ Quantity.parse hex = .ok v.toNat := by
  have hsize : UInt64.size = 2 ^ 64 := rfl
  unfold blockNumberOf
  cases Quantity.parse hex with
  | error e => exact iff_of_false nofun nofun
  | ok n =>
    simp only [bind, Except.bind, Except.ok.injEq]
    split
    · next hlt =>
      constructor
      · intro h
        rw [← Except.ok.inj h, UInt64.toNat_ofNat_of_lt' hlt]
      · rintro rfl
        exact congrArg Except.ok UInt64.ofNat_toNat
    · next hge =>
      refine iff_of_false nofun ?_
      rintro rfl
      exact hge v.toNat_lt

theorem blockNumberOf_eq_error_iff {hex : String} {e : ServiceError} :
    blockNumberOf hex = .error e ↔ Quantity.parse hex = .error e ∨
      ∃ n, Quantity.parse hex = .ok n ∧ 2 ^ 64 ≤ n ∧ e = .invalidResponse (.blockNumber hex) := by
  have hsize : UInt64.size = 2 ^ 64 := rfl
  unfold blockNumberOf
  cases Quantity.parse hex with
  | error e' => simp [bind, Except.bind]
  | ok n =>
    simp only [bind, Except.bind, reduceCtorEq, false_or, Except.ok.injEq, exists_eq_left']
    split
    · next hlt => exact iff_of_false nofun (fun h => by omega)
    · next hge =>
      constructor
      · intro h
        exact ⟨by omega, (Except.error.inj h).symm⟩
      · rintro ⟨-, rfl⟩
        rfl

theorem blockNumber_eq_ok_iff {v : UInt64} :
    (c.blockNumber server).2 = .ok v ↔ ∃ hex, c.blockReply server = .ok hex ∧ Quantity.parse hex = .ok v.toNat := by
  rw [blockNumber_snd]
  cases c.blockReply server with
  | error e => exact iff_of_false nofun nofun
  | ok hex => simpa [Except.bind] using blockNumberOf_eq_ok_iff

theorem blockNumber_eq_error_iff {e : ServiceError} :
    (c.blockNumber server).2 = .error e ↔ c.blockReply server = .error e ∨
      ∃ hex, c.blockReply server = .ok hex ∧ (Quantity.parse hex = .error e ∨
        ∃ n, Quantity.parse hex = .ok n ∧ 2 ^ 64 ≤ n ∧ e = .invalidResponse (.blockNumber hex)) := by
  rw [blockNumber_snd]
  cases c.blockReply server with
  | error e' => simp [Except.bind]
  | ok hex => simpa [Except.bind] using blockNumberOf_eq_error_iff

end RpcClient

/-- **Quantities are read exactly.** The digits of a number, in either case and with any zeros in front, are read as
that number, however large it is. The texts that are read are those of the grammar, each as the number of its digits,
and every other text is refused as a reply that is of no use. A block number is the quantity of the reply if that fits
64 bits, and an error otherwise. -/
theorem Quantity.parse_exact :
    (∀ (n zeros : Nat) (cs : List Char), cs.map Char.toLower = List.replicate zeros '0' ++ Nat.toDigits 16 n →
        parse (String.ofList ('0' :: 'x' :: cs)) = .ok n) ∧
      (∀ text, (∀ n, parse text = .ok n ↔
          ∃ cs, text.toList = '0' :: 'x' :: cs ∧ Hex.IsNumeral cs ∧ n = Hex.denoted cs) ∧
        ∀ e, parse text = .error e ↔ (∀ n, parse text ≠ .ok n) ∧
          e = .invalidResponse (if text = "0x" then .emptyHex text else .notHex text)) ∧
      ∀ (c : RpcClient) (server : RpcServer),
        (∀ v : UInt64, (c.blockNumber server).2 = .ok v ↔
          ∃ hex, c.blockReply server = .ok hex ∧ parse hex = .ok v.toNat) ∧
        ∀ e, (c.blockNumber server).2 = .error e ↔ c.blockReply server = .error e ∨
          ∃ hex, c.blockReply server = .ok hex ∧
            (parse hex = .error e ∨ ∃ n, parse hex = .ok n ∧ 2 ^ 64 ≤ n ∧ e = .invalidResponse (.blockNumber hex)) := by
  refine ⟨fun n zeros cs h => ?_, fun text => ⟨fun n => parse_eq_ok_iff, fun e => parse_eq_error_iff⟩,
    fun c server => ⟨fun v => RpcClient.blockNumber_eq_ok_iff, fun e => RpcClient.blockNumber_eq_error_iff⟩⟩
  rw [parse_eq_ok_iff, String.toList_ofList]
  exact ⟨cs, rfl, Hex.isNumeral_of_toLower h, (Hex.denoted_of_toLower h).symm⟩

/-- a number of 260 bits with zeros in front and digits of both cases -/
theorem Quantity.parse_exact_mixed :
    let n := 16 ^ 65 - 0x5453
    let cs := ['0', '0'] ++ List.replicate 61 'F' ++ ['a', 'B', 'A', 'd']
    cs.map Char.toLower = List.replicate 2 '0' ++ Nat.toDigits 16 n ∧
      parse (String.ofList ('0' :: 'x' :: cs)) = .ok n := by
  intro n cs
  have hdigits : cs.map Char.toLower = List.replicate 2 '0' ++ Nat.toDigits 16 n := by decide +kernel
  exact ⟨hdigits, parse_exact.1 n 2 cs hdigits⟩

end ReplicatedOrders
