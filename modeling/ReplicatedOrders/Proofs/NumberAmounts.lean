/-
Numbers as amounts: what a JSON number is read as where an amount has to stand.

A number is read by way of its digits, and a real number is its nearest integer before the reader of numerals sees it.
So a literal with a minus sign is never an amount, not even minus zero, and any other literal is one unless it is too
large, whether it denotes an integer or not.
- `Literal.Approximates`: how far the amount is from the number that is written.
- `Literal.amount?_approximates`, `Literal.exists_amount?`: the amount of a literal.
- `Amount.decoder_ofLiteral`: the literal is read as the decimal string of its amount is.
- `OnChainData.decode_literal`: literals in on-chain data, on its own and inside an order.
-/
import ReplicatedOrders.Proofs.AmountFields
import ReplicatedOrders.Proofs.Json.Denotation

namespace ReplicatedOrders

open Json

/-! ## The amount of a literal -/

namespace Json

/-- the amount that a number is read as: none if it has a minus sign, and a real number is rounded -/
def Number.amount? : Number → Option Nat
  | .whole m => if 0 ≤ m.val then some m.val.toNat else none
  | .real x => if x.negative then none else some x.nearestWhole

/-- a number that is an amount is written as one -/
theorem Number.digits_of_amount? {m : Number} {n : Nat} (h : m.amount? = some n) : m.digits = toString n := by
  cases m with
  | whole w =>
    rw [amount?] at h
    split_ifs at h with hval
    obtain ⟨k, hk⟩ := Int.eq_ofNat_of_zero_le hval
    rw [hk, Int.toNat_natCast, Option.some.injEq] at h
    rw [digits, hk, ← h]
    rfl
  | real x =>
    rw [amount?] at h
    split_ifs at h with hnegative
    rw [digits, Binary64.wholeText, if_neg hnegative, String.empty_append, Option.some.inj h]

namespace Literal

/-- the amount that a literal is read as, if it is one -/
def amount? (l : Literal) : Option Nat := l.number?.bind Number.amount?

/-- a literal is a whole number of 64 bits, or a real number -/
theorem number?_cases {l : Literal} {m : Number} (h : l.number? = some m) :
    (l.fraction = [] ∧ l.exponent = none ∧ l.whole? = some m) ∨ ∃ x, l.real? = some x ∧ m = .real x := by
  unfold number? at h
  split at h
  · next hfraction hexponent hwhole =>
    exact Or.inl ⟨hfraction, hexponent, hwhole.trans h⟩
  · obtain ⟨x, hx, rfl⟩ := Option.map_eq_some_iff.1 h
    exact Or.inr ⟨x, hx, rfl⟩

theorem exists_whole_of_whole? {l : Literal} {m : Number} (h : l.whole? = some m) :
    ∃ w : Whole, m = .whole w ∧ (l.negative = true → w.val < 0) ∧ (l.negative = false → w.val = l.magnitude) := by
  have hofInt : ∀ i, Number.ofInt? i = some m → ∃ w : Whole, m = .whole w ∧ w.val = i := by
    intro i hi
    unfold Number.ofInt? at hi
    split at hi
    · exact ⟨_, (Option.some.inj hi).symm, rfl⟩
    · cases hi
  simp only [whole?] at h
  cases hnegative : l.negative with
  | false =>
    rw [hnegative, if_neg Bool.false_ne_true] at h
    obtain ⟨w, rfl, hw⟩ := hofInt _ h
    exact ⟨w, rfl, fun h => absurd h Bool.false_ne_true, fun _ => hw⟩
  | true =>
    rw [hnegative, if_pos rfl] at h
    split at h
    · cases h
    · obtain ⟨w, rfl, hw⟩ := hofInt _ h
      exact ⟨w, rfl, fun _ => by omega, fun h => absurd h.symm Bool.false_ne_true⟩

/-- nothing is read from a literal with a minus sign, not even from minus zero -/
theorem amount?_of_negative {l : Literal} (h : l.negative = true) : l.amount? = none := by
  rw [amount?, Option.bind_eq_none_iff]
  intro m hm
  rcases number?_cases hm with ⟨-, -, hwhole⟩ | ⟨x, hx, rfl⟩
  · obtain ⟨w, rfl, hw, -⟩ := exists_whole_of_whole? hwhole
    exact if_neg (not_le.2 (hw h))
  · exact if_pos ((negative_real? hx).trans h)

/-- an amount is the number that is written, or the integer that was made of a real number -/
theorem amount?_cases {l : Literal} {n : Nat} (h : l.amount? = some n) :
    l.negative = false ∧ ((l.fraction = [] ∧ l.exponent = none ∧ n = l.magnitude) ∨
      ∃ x, l.real? = some x ∧ n = x.nearestWhole) := by
  have hnegative : l.negative = false := by
    by_contra hminus
    rw [amount?_of_negative (Bool.eq_true_of_not_eq_false hminus)] at h
    cases h
  obtain ⟨m, hm, hamount⟩ := Option.bind_eq_some_iff.1 h
  refine ⟨hnegative, ?_⟩
  rcases number?_cases hm with ⟨hfraction, hexponent, hwhole⟩ | ⟨x, hx, rfl⟩
  · obtain ⟨w, rfl, -, hw⟩ := exists_whole_of_whole? hwhole
    rw [Number.amount?, hw hnegative, if_pos (Int.natCast_nonneg _), Int.toNat_natCast] at hamount
    exact Or.inl ⟨hfraction, hexponent, (Option.some.inj hamount).symm⟩
  · rw [Number.amount?, negative_real? hx, hnegative, if_neg Bool.false_ne_true] at hamount
    exact Or.inr ⟨x, hx, (Option.some.inj hamount).symm⟩

/-- what an amount has to do with the literal that it is read from -/
structure Approximates (l : Literal) (n : Nat) : Prop where
  not_negative : l.negative = false
  near : l.whole.length < 2147483648 → |(n : ℚ) - l.value| ≤ 1 / 2 + l.value / 2 ^ 50
  /-- an integer of 64 bits is the amount itself -/
  exact : l.IsInteger → l.magnitude < 2 ^ 64 → n = l.magnitude
  /-- a longer one is rounded, to a multiple of 2048 -/
  rounded : l.IsInteger → 2 ^ 64 ≤ l.magnitude → 2048 ∣ n

theorem value_of_digits {l : Literal} (hnegative : l.negative = false) (hfraction : l.fraction = [])
    (hexponent : l.exponent = none) : l.value = l.magnitude := by
  rw [value, hnegative, if_neg Bool.false_ne_true, absolute, allDigits, power, hfraction, hexponent]
  simp [magnitude]

theorem amount?_integer {l : Literal} (hl : l.IsInteger) {n : Nat} (h : l.amount? = some n) :
    n = kept false l.magnitude := by
  obtain ⟨m, hm, hamount⟩ := Option.bind_eq_some_iff.1 h
  obtain ⟨hnegative, -⟩ := amount?_cases h
  have hdigits : m.digits = toString (kept false l.magnitude) := by
    rw [hl.eq_integer, hnegative] at hm
    rw [digits_integer hm, if_neg Bool.false_ne_true, String.empty_append]
  exact Numeral.toString_injective ((Number.digits_of_amount? hamount).symm.trans hdigits)

theorem amount?_approximates {l : Literal} (hl : l.WellFormed) {n : Nat} (h : l.amount? = some n) :
    l.Approximates n := by
  obtain ⟨hnegative, hcases⟩ := amount?_cases h
  refine ⟨hnegative, ?_, ?_, ?_⟩
  · intro hlength
    rcases hcases with ⟨hfraction, hexponent, rfl⟩ | ⟨x, hx, rfl⟩
    · rw [value_of_digits hnegative hfraction hexponent, sub_self, abs_zero]
      positivity
    · have herror := nearestWhole_real? hl hlength hx
      rwa [value, hnegative, if_neg Bool.false_ne_true]
  · intro hinteger hfits
    rw [amount?_integer hinteger h, kept, if_pos ⟨hfits, fun h => absurd h Bool.false_ne_true⟩]
  · intro hinteger hlarge
    rw [amount?_integer hinteger h]
    exact dvd_kept fun hfits => absurd hfits.1 (Nat.not_lt.2 hlarge)

/-- every literal without a minus sign is read as an amount, if it is not too long and not too large -/
theorem exists_amount? {l : Literal} (hl : l.WellFormed) (hnegative : l.negative = false)
    (hlength : l.whole.length + l.fraction.length ≤ 2000000000) (hvalue : l.value ≤ Binary64.readable) :
    ∃ n, l.amount? = some n := by
  have hread : ∃ m, l.number? = some m := by
    rw [value, hnegative, if_neg Bool.false_ne_true] at hvalue
    obtain ⟨x, hx⟩ := exists_real? hl hlength hvalue
    unfold number?
    split
    · exact ⟨_, rfl⟩
    · exact ⟨.real x, by rw [hx]; rfl⟩
  obtain ⟨m, hm⟩ := hread
  rw [amount?, hm, Option.bind_some]
  rcases number?_cases hm with ⟨-, -, hwhole⟩ | ⟨x, hx, rfl⟩
  · obtain ⟨w, rfl, -, hw⟩ := exists_whole_of_whole? hwhole
    rw [Number.amount?, hw hnegative, if_pos (Int.natCast_nonneg _)]
    exact ⟨_, rfl⟩
  · rw [Number.amount?, negative_real? hx, hnegative, if_neg Bool.false_ne_true]
    exact ⟨_, rfl⟩

end Literal

/-- the document of a literal -/
def Doc.ofLiteral (l : Literal) : Doc := l.number?.elim .unreadable .number

theorem Doc.writtenAs_ofLiteral {l : Literal} {cs : List Char} (h : l.Spelling cs) :
    (ofLiteral l).WrittenAs (String.ofList cs) := by
  refine ⟨_, .number l.number?, ?_⟩
  rw [String.toList_ofList]
  exact .token (.number h)

end Json

/-! ## Reading -/

namespace Amount

theorem ofValue_number (m : Number) : ofValue (.number m) = ofValue (.text m.digits) := rfl

/-- a number is read as an amount by way of its digits -/
theorem ofValue_number_eq_ok_iff {m : Number} {n : Nat} : ofValue (.number m) = .ok n ↔ m.amount? = some n := by
  cases m with
  | whole w =>
    rw [ofValue_whole_eq_ok_iff, denotes_whole_iff, Number.amount?]
    split_ifs with hval
    · rw [Option.some.injEq]
      omega
    · exact iff_of_false (by omega) nofun
  | real x =>
    rw [Number.amount?]
    split_ifs with hnegative
    · refine iff_of_false ?_ nofun
      rw [ofValue_number, ofValue_text_eq_ok_iff, denotes_text_iff, Number.digits, Binary64.wholeText, if_pos hnegative,
        String.toList_append]
      exact fun h => not_isDecimal_minus _ h.1
    · rw [ofValue_number, Number.digits, Binary64.wholeText, if_neg hnegative, String.empty_append, ofValue,
        Value.textual]
      simp only [Numeral.parseLong_toString, Except.ok.injEq, Option.some.injEq]

theorem decoder_number_eq_ok_iff {levels : Nat} {m : Number} {n : Nat} :
    decoder levels (.number m) = .ok n ↔ m.amount? = some n :=
  (decoder_eq_ok_iff rfl).trans ofValue_number_eq_ok_iff

theorem decoder_ofLiteral_eq_ok_iff {levels : Nat} {l : Literal} {n : Nat} :
    decoder levels (.ofLiteral l) = .ok n ↔ l.amount? = some n := by
  rw [Doc.ofLiteral, Literal.amount?]
  cases l.number? with
  | none => exact iff_of_false nofun nofun
  | some m => exact decoder_number_eq_ok_iff

/-- a literal that is an amount is read as the digits of the amount are -/
theorem decoder_ofLiteral {levels : Nat} {l : Literal} {n : Nat} (h : l.amount? = some n) :
    decoder levels (.ofLiteral l) = decoder levels (toDoc n) := by
  rw [decoder_ofLiteral_eq_ok_iff.2 h, decoder_toDoc]

end Amount

/-! ## Literals as amounts -/

theorem Amount.exists_amount?_of_nullable {levels : Nat} {l : Literal} {a : Option Nat}
    (h : Decoder.nullable decoder levels (.ofLiteral l) = .ok a) : ∃ n, l.amount? = some n := by
  rcases Decoder.nullable_eq_ok_iff.1 h with ⟨hnull, -⟩ | ⟨-, n, hn, -⟩
  · rw [Doc.ofLiteral] at hnull
    cases hm : l.number? <;> rw [hm] at hnull <;> cases hnull
  · exact ⟨n, decoder_ofLiteral_eq_ok_iff.1 hn⟩

namespace OnChainData

/-- **A JSON number as an amount.** A literal stands in on-chain data, on its own or inside an order, as a member or as
an item. If the text is read, the literal is an amount and the field has it; and then the text is read as the one with
the decimal string of the amount in its place. The amount is near to what the literal denotes, and an integer of 64 bits
is the amount itself; but no literal without a minus sign is refused for its fraction or for being rounded. -/
theorem decode_literal {l : Literal} (hl : l.WellFormed) {f : AmountField} {c : Doc → Doc}
    (hc : Doc.Field f.name f.place c) :
    (∀ t, (c (.ofLiteral l)).WrittenAs t →
      (∀ x, Json.decode decoder t = .ok x → l.amount? = some (f.of x)) ∧
        ∀ n t', l.amount? = some n → (c (Amount.toDoc n)).WrittenAs t' →
          Json.decode decoder t = Json.decode decoder t') ∧
      (∀ k u, Doc.Field Order.onChainField Order.onChainPlace k → (k (c (.ofLiteral l))).WrittenAs u →
        (∀ o, Order.decode u = .ok o →
          (∃ n, l.amount? = some n) ∧ ∀ x, o.onChainData = some x → l.amount? = some (f.of x)) ∧
          ∀ n u', l.amount? = some n → (k (c (Amount.toDoc n))).WrittenAs u' → Order.decode u = Order.decode u') ∧
      (∀ n, l.amount? = some n → l.Approximates n) ∧
      (l.negative = false → l.whole.length + l.fraction.length ≤ 2000000000 → l.value ≤ 10 ^ 307 →
        ∃ n, l.amount? = some n) := by
  have hstrict : ∀ {levels x}, decoder levels (c (.ofLiteral l)) = .ok x → l.amount? = some (f.of x) := by
    intro levels x hx
    obtain ⟨inner, hread⟩ := amount_of_decoder hc hx
    exact Amount.decoder_ofLiteral_eq_ok_iff.1 hread
  have hlenient : ∀ {n}, l.amount? = some n → ∀ levels,
      lenientDecoder levels (c (.ofLiteral l)) = lenientDecoder levels (c (Amount.toDoc n)) := by
    intro n hn
    refine lenientDecoder_congr hc fun levels => ?_
    rw [Amount.nullable_of_decoder (Amount.decoder_ofLiteral_eq_ok_iff.2 hn), Amount.nullable_toDoc]
  refine ⟨?_, ?_, fun n hn => Literal.amount?_approximates hl hn, Literal.exists_amount? hl⟩
  · intro t ht
    rw [decode_of_writtenAs decoder ht]
    refine ⟨fun x => hstrict, ?_⟩
    intro n t' hn ht'
    rw [decode_of_writtenAs decoder ht']
    exact decoder_congr hc (fun levels => Amount.decoder_ofLiteral hn) _
  · intro k u hk hu
    rw [Order.decode, decode_of_writtenAs Order.decoder hu]
    constructor
    · intro o ho
      obtain ⟨inner, hread⟩ := Order.onChainData_of_decoder hk ho
      obtain ⟨inner', a, ha⟩ := read_of_lenientDecoder hc hread
      refine ⟨Amount.exists_amount?_of_nullable ha, ?_⟩
      intro x hx
      rw [hx] at hread
      exact hstrict (decoder_of_lenientDecoder hread)
    · intro n u' hn hu'
      rw [Order.decode, decode_of_writtenAs Order.decoder hu']
      exact Order.decoder_congr hk (hlenient hn) _

/-- one and a half is read as two, on its own and inside an order -/
theorem decode_literal_rounded :
    let l : Literal := ⟨false, [1], [5], none⟩
    let t := "\x7b\"orderInfo\":\x7b\x7d,\"makerBalance_weiUnits\":1.5,\"makerAllowance_weiUnits\":\"0\"\x7d"
    l.text = "1.5" ∧ l.value = 3 / 2 ∧ l.amount? = some 2 ∧ l.Approximates 2 ∧
      Json.decode decoder t = .ok ⟨.object [], 2, 0⟩ ∧
      Order.decode (Order.textAround "0x1" t) = .ok ⟨"0x1", "", .null, some ⟨.object [], 2, 0⟩⟩ := by
  intro l t
  have hl : l.WellFormed := ⟨.singleton (by decide), by decide, nofun⟩
  have hvalue : l.value = 3 / 2 := by
    norm_num [Literal.value, Literal.absolute, Literal.allDigits, Literal.power, Numeral.ofDigits, l]
  have hamount : l.amount? = some 2 := by decide +kernel
  let c : Doc → Doc := fun d => .record [(infoField, .object []), (balanceField, d), (allowanceField, .text "0")]
  let k : Doc → Doc := fun d => .record [(Order.hashField, .text "0x1"), (Order.onChainField, d)]
  have hc : Doc.Field AmountField.balance.name AmountField.balance.place c :=
    .member [(some infoField, .object [])] [(some allowanceField, .text "0")]
  have hk : Doc.Field Order.onChainField Order.onChainPlace k := .member [(some Order.hashField, .text "0x1")] []
  -- the same text with the string of the amount in place of the literal
  let t' := "\x7b\"orderInfo\":\x7b\x7d,\"makerBalance_weiUnits\":\"2\",\"makerAllowance_weiUnits\":\"0\"\x7d"
  have ht' : (c (Amount.toDoc 2)).WrittenAs t' := by
    unfold c t'
    exact Doc.writtenAs_iff.2 ⟨by cbv, by cbv⟩
  have ht : (c (.ofLiteral l)).WrittenAs t := by
    have hinfo : (Doc.object []).WrittenAs "\x7b\x7d" := Doc.writtenAs_iff.2 ⟨by cbv, by cbv⟩
    have hzero : (Doc.text "0").WrittenAs "\"0\"" := Doc.writtenAs_iff.2 ⟨by cbv, by cbv⟩
    have hwritten := @Doc.writtenAs_record [(infoField, .object [], "\x7b\x7d"), (balanceField, .ofLiteral l, l.text),
      (allowanceField, .text "0", "\"0\"")] (List.forall_mem_cons.2 ⟨hinfo, List.forall_mem_cons.2
        ⟨Doc.writtenAs_ofLiteral (Literal.spelling_chars hl false), List.forall_mem_singleton.2 hzero⟩⟩)
    have htext : objectText [(infoField, "\x7b\x7d"), (balanceField, l.text), (allowanceField, "\"0\"")] = t := by
      decide +kernel
    rwa [← htext]
  obtain ⟨hown, horder, hnear, -⟩ := decode_literal hl hc
  refine ⟨by decide, hvalue, hamount, hnear 2 hamount, ?_, ?_⟩
  · rw [(hown t ht).2 2 t' hamount ht', decode_of_writtenAs decoder ht']
    cbv
  · rw [(horder k _ hk (Order.writtenAs_textAround "0x1" ht)).2 2 _ hamount (Order.writtenAs_textAround "0x1" ht'),
      Order.decode_textAround "0x1" ht']
    cbv

end OnChainData

end ReplicatedOrders
