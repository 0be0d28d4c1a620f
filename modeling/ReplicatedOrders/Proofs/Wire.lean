/-
Orders on the wire and back: what the decoders make of the documents that the writers build.

An order comes back as it was, except for on-chain data that says nothing about the order: it comes back as none. A
value that nests deeper than the reader goes makes the whole order unreadable.
- `Order.decoder_toDoc`: the round trip of an order, with its exact condition.
-/
import ReplicatedOrders.Order.Wire
import ReplicatedOrders.Proofs.Decimal
import ReplicatedOrders.Proofs.Json.Canonical

namespace ReplicatedOrders

open Json

namespace Json

/-- members in order and no real number: what is written of such a value is read back -/
def Value.Lossless (v : Value) : Prop := v.Canonical ∧ v.NoReal

namespace Decoder

theorem value_ofValue {v : Value} (h : v.Canonical) (levels : Nat) :
    Decoder.value levels (.ofValue v) = if v.depth ≤ levels then .ok v else .error .malformed := by
  rw [Decoder.value, Value.value?_ofValue h]
  split_ifs <;> rfl

/-- the text of a value is read back exactly if the value nests at most as deep as texts may -/
theorem decode_compact_value {v : Value} (h : v.Lossless) :
    decode Decoder.value v.compact = if v.depth ≤ maxDepth then .ok v else .error .malformed := by
  rw [Value.compact, decode_compact Decoder.value (Value.plain_ofValue h.2), value_ofValue h.1]

/-- where nothing may stand, only the value `null` is read in another way -/
theorem nullable_eq {α : Type} (decode : Decoder α) {levels : Nat} {d : Doc} {v : Value}
    (hv : d.value? levels = some v) :
    nullable decode levels d = if v.isNull then .ok none else (decode levels d).map some := by
  have hother : d ≠ .null → v.isNull = false := by
    intro hd
    cases d with
    | null => exact absurd rfl hd
    | bool | number | text =>
      obtain rfl := Option.some.inj hv
      rfl
    | unreadable | cut => cases hv
    | array | object =>
      cases levels with
      | zero => cases hv
      | succ levels =>
        obtain ⟨_, -, rfl⟩ := Option.map_eq_some_iff.1 hv
        rfl
  cases d with
  | null =>
    obtain rfl := Option.some.inj hv
    rfl
  | _ =>
    rw [hother (by simp), if_neg Bool.false_ne_true]
    rfl

theorem nullable_ofValue {v : Value} (h : v.Canonical) (levels : Nat) :
    Decoder.nullable Decoder.value levels (.ofValue v) =
      if v.depth ≤ levels then .ok (if v.isNull then none else some v) else .error .malformed := by
  have hv := value_ofValue h levels
  cases v with
  | null => simp [Decoder.nullable, Doc.ofValue, Value.depth, Value.isNull]
  | _ =>
    simp only [Decoder.nullable, Doc.ofValue] at hv ⊢
    rw [hv]
    split_ifs <;> simp_all [Value.isNull, Except.map]

theorem int64_ofInt64 (levels : Nat) (n : Int64) : Decoder.int64 levels (.number (.ofInt64 n)) = .ok n := by
  have hlt := n.toInt_lt
  simp only [Number.ofInt64, Decoder.int64]
  rw [if_pos (by omega), Int64.ofInt_toInt]

end Decoder

/-! ## Fields of a record -/

variable {σ α : Type} {field : σ → String → Doc → Except JsonError σ} {s s' : σ} {key : String} {d : Doc}
  {ms : List (Option String × Doc)}

theorem readMembers_of_ok (h : field s key d = .ok s') :
    readMembers field s ((some key, d) :: ms) = readMembers field s' ms := by
  rw [readMembers, h]
  rfl

theorem readMembers_of_error {e : JsonError} (h : field s key d = .error e) :
    readMembers field s ((some key, d) :: ms) = .error e := by
  rw [readMembers, h]
  rfl

end Json

/-! ## Ids and amounts -/

theorem EntryId.decoder_toDoc (levels : Nat) (id : EntryId) : EntryId.decoder levels id.toDoc = .ok id := by
  simp [EntryId.decoder, EntryId.toDoc, Decoder.text, EntryId.parse?_text, bind, Except.bind, pure, Except.pure]

theorem Amount.decoder_toDoc (levels n : Nat) : Amount.decoder levels (Amount.toDoc n) = .ok n := by
  have hread : Amount.ofValue (.text (toString n)) = .ok n := by
    simp only [Amount.ofValue, Value.textual, Numeral.parseLong_toString]
  rw [Amount.decoder, Amount.toDoc, Decoder.value, Doc.value?]
  simp only [Option.elim, bind, Except.bind, hread]
  rfl

theorem Amount.nullable_toDoc (levels n : Nat) :
    Decoder.nullable Amount.decoder levels (Amount.toDoc n) = .ok (some n) := by
  have h := Amount.decoder_toDoc levels n
  simp only [Amount.toDoc, Decoder.nullable] at h ⊢
  rw [h]
  rfl

/-! ## On-chain data -/

namespace OnChainData

theorem plain_toDoc {d : OnChainData} (h : d.orderInfo.NoReal) : d.toDoc.Plain := by
  refine .record fun f hf => ?_
  simp only [List.mem_cons, List.not_mem_nil, or_false] at hf
  rcases hf with rfl | rfl | rfl
  · exact Value.plain_ofValue h
  · exact .text _
  · exact .text _

theorem Lenient.readMembers_toDoc {d : OnChainData} (h : d.orderInfo.Canonical) (levels : Nat) :
    readMembers (Lenient.field levels) {} [(some infoField, .ofValue d.orderInfo),
        (some balanceField, Amount.toDoc d.makerBalance), (some allowanceField, Amount.toDoc d.makerAllowance)] =
      if d.orderInfo.depth ≤ levels then
        .ok ⟨some (if d.orderInfo.isNull then none else some d.orderInfo), some (some d.makerBalance),
          some (some d.makerAllowance)⟩
      else .error .malformed := by
  have hinfo : Lenient.field levels {} infoField (.ofValue d.orderInfo) =
      if d.orderInfo.depth ≤ levels then .ok { info := some (if d.orderInfo.isNull then none else some d.orderInfo) }
      else .error .malformed := by
    simp only [Lenient.field, if_true, Slot.read, Decoder.nullable_ofValue h]
    split_ifs <;> rfl
  have hbalance : ∀ s : Lenient, s.balance = none → Lenient.field levels s balanceField (Amount.toDoc d.makerBalance) =
      .ok { s with balance := some (some d.makerBalance) } := by
    intro s hs
    simp only [Lenient.field, infoField, balanceField, String.reduceEq, if_true, if_false, hs, Slot.read,
      Amount.nullable_toDoc]
    rfl
  have hallowance : ∀ s : Lenient, s.allowance = none →
      Lenient.field levels s allowanceField (Amount.toDoc d.makerAllowance) =
        .ok { s with allowance := some (some d.makerAllowance) } := by
    intro s hs
    simp only [Lenient.field, infoField, balanceField, allowanceField, String.reduceEq, if_true, if_false, hs,
      Slot.read, Amount.nullable_toDoc]
    rfl
  by_cases hd : d.orderInfo.depth ≤ levels
  · rw [if_pos hd] at hinfo ⊢
    rw [readMembers_of_ok hinfo, readMembers_of_ok (hbalance _ rfl), readMembers_of_ok (hallowance _ rfl), readMembers]
  · rw [if_neg hd] at hinfo ⊢
    exact readMembers_of_error hinfo

/-- inside an order, on-chain data that says nothing about the order is read as none -/
theorem lenientDecoder_toDoc {d : OnChainData} (h : d.orderInfo.Canonical) (levels : Nat) :
    lenientDecoder (levels + 1) d.toDoc =
      if d.orderInfo.depth ≤ levels then .ok (if d.orderInfo.isNull then none else some d)
      else .error .malformed := by
  have hread := Lenient.readMembers_toDoc h levels
  simp only [lenientDecoder, toDoc, Doc.record, List.map_cons, List.map_nil, Decoder.nullable, Decoder.record]
  rw [hread]
  by_cases hd : d.orderInfo.depth ≤ levels
  · rw [if_pos hd, if_pos hd]
    cases hn : d.orderInfo.isNull <;> rfl
  · rw [if_neg hd, if_neg hd]
    rfl

end OnChainData

/-! ## Orders -/

namespace Order

/-- all values in order and without real numbers -/
def Lossless (o : Order) : Prop := o.offChainData.Lossless ∧ ∀ d ∈ o.onChainData, d.orderInfo.Lossless

/-- inside a reader that goes so many levels into on-chain data, no value nests too deep -/
def Fits (levels : Nat) (o : Order) : Prop :=
  o.offChainData.depth ≤ levels + 1 ∧ ∀ d ∈ o.onChainData, d.orderInfo.depth ≤ levels

instance (levels : Nat) (o : Order) : Decidable (o.Fits levels) := inferInstanceAs (Decidable (_ ∧ _))

/-- the order that is read back: on-chain data that says nothing about the order is gone -/
def restored (o : Order) : Order := { o with onChainData := o.onChainData.filter fun d => !d.orderInfo.isNull }

theorem plain_toDoc {o : Order} (h : o.Lossless) : o.toDoc.Plain := by
  refine .record fun f hf => ?_
  simp only [List.mem_append, List.mem_cons, List.not_mem_nil, or_false, List.mem_map, Option.mem_toList] at hf
  rcases hf with (rfl | rfl | rfl) | ⟨d, hd, rfl⟩
  · exact .text _
  · exact .text _
  · exact Value.plain_ofValue h.1.2
  · exact OnChainData.plain_toDoc (h.2 d hd).2

/-- the three fields that an order always has -/
theorem Fields.readMembers_head {o : Order} (h : o.offChainData.Canonical) (levels : Nat)
    (ms : List (Option String × Doc)) :
    readMembers (Fields.field levels) {} ((some hashField, .text o.hash) :: (some bookField, .text o.bookName) ::
        (some offChainField, .ofValue o.offChainData) :: ms) =
      if o.offChainData.depth ≤ levels then
        readMembers (Fields.field levels) ⟨some o.hash, some o.bookName, some o.offChainData, none⟩ ms
      else .error .malformed := by
  have hhash : Fields.field levels {} hashField (.text o.hash) = .ok { hash := some o.hash } := by
    simp only [Fields.field, if_true]
    rfl
  have hbook : Fields.field levels { hash := some o.hash } bookField (.text o.bookName) =
      .ok { hash := some o.hash, bookName := some o.bookName } := by
    simp only [Fields.field, hashField, bookField, String.reduceEq, if_true, if_false]
    rfl
  have hoff : Fields.field levels { hash := some o.hash, bookName := some o.bookName } offChainField
      (.ofValue o.offChainData) =
        if o.offChainData.depth ≤ levels then .ok ⟨some o.hash, some o.bookName, some o.offChainData, none⟩
        else .error .malformed := by
    simp only [Fields.field, hashField, bookField, offChainField, String.reduceEq, if_true, if_false, Slot.read,
      Decoder.value_ofValue h]
    split_ifs <;> rfl
  rw [readMembers_of_ok hhash, readMembers_of_ok hbook]
  by_cases hd : o.offChainData.depth ≤ levels
  · rw [if_pos hd] at hoff ⊢
    exact readMembers_of_ok hoff
  · rw [if_neg hd] at hoff ⊢
    exact readMembers_of_error hoff

/-- **Round trip of an order.** It is read back exactly if its values fit, and else the text is malformed. -/
theorem decoder_toDoc {o : Order} (h : o.Lossless) (levels : Nat) :
    Order.decoder (levels + 2) o.toDoc = if o.Fits levels then .ok o.restored else .error .malformed := by
  have hhead := Fields.readMembers_head h.1.1 (levels + 1)
    (o.onChainData.toList.map fun d => (some onChainField, d.toDoc))
  have hdecoder : Order.decoder (levels + 2) o.toDoc =
      (readMembers (Fields.field (levels + 1)) {} ((some hashField, .text o.hash) ::
        (some bookField, .text o.bookName) :: (some offChainField, .ofValue o.offChainData) ::
          o.onChainData.toList.map fun d => (some onChainField, d.toDoc))).bind Fields.close := by
    simp only [Order.decoder, toDoc, Doc.record, Decoder.record, List.cons_append, List.nil_append, List.map_cons,
      List.map_map, Function.comp_def]
    rfl
  rw [hdecoder, hhead]
  by_cases hoff : o.offChainData.depth ≤ levels + 1
  · rw [if_pos hoff]
    cases hon : o.onChainData with
    | none =>
      have hfits : o.Fits levels := ⟨hoff, by simp [hon]⟩
      rw [if_pos hfits, restored, hon]
      rfl
    | some d =>
      have hread : Fields.field (levels + 1) ⟨some o.hash, some o.bookName, some o.offChainData, none⟩ onChainField
          d.toDoc = if d.orderInfo.depth ≤ levels then
            .ok ⟨some o.hash, some o.bookName, some o.offChainData, some (if d.orderInfo.isNull then none else some d)⟩
          else .error .malformed := by
        simp only [Fields.field, hashField, bookField, offChainField, onChainField, String.reduceEq, if_true, if_false,
          Slot.read, OnChainData.lenientDecoder_toDoc (h.2 d hon).1]
        split_ifs <;> rfl
      by_cases hd : d.orderInfo.depth ≤ levels
      · have hfits : o.Fits levels := ⟨hoff, by simpa [hon] using hd⟩
        rw [if_pos hd] at hread
        rw [if_pos hfits, restored, hon, Option.toList_some, List.map_cons, readMembers_of_ok hread, Option.filter_some]
        cases hn : d.orderInfo.isNull <;> rfl
      · have hfits : ¬ o.Fits levels := fun hf => hd (hf.2 d hon)
        rw [if_neg hd] at hread
        rw [if_neg hfits, Option.toList_some, List.map_cons, readMembers_of_error hread]
        rfl
  · have hfits : ¬ o.Fits levels := fun hf => hoff hf.1
    rw [if_neg hoff, if_neg hfits]
    rfl

end Order

end ReplicatedOrders
