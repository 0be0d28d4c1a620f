/-
Leniency: on-chain data that is read on its own and inside an order.

On its own, all three fields must stand, and the state of the order may be `null`. Inside an order a field may be
missing or `null`, and then there is no on-chain data; the document also stands one level deeper. Both readers go over
the same members or items, and `Strict.lenient` says what the lenient one holds when the strict one is there.
- `Strict.field_lenient`, `Lenient.field_strict`: one member, in both directions.
- `Lenient.Spoiled`: an amount is `null`, so nothing complete can come of it.
- `lenientDecoder_of_decoder`, `decoder_of_lenientDecoder`: the same document, at the same depth.
- `decoder_settled`: the strict reader at another depth.
- `Order.decode_textAround`: an order around the text of its on-chain data.
- `Order.onChainData_textAround`: both readers on a text.
-/
import Mathlib
import ReplicatedOrders.Proofs.Amounts
import ReplicatedOrders.Proofs.Json.Records

namespace ReplicatedOrders

open Json

/-! ## Amounts -/

namespace Amount

theorem decoder_settled : decoder.Settled := by
  intro levels levels' d n h henough
  obtain ⟨v, hv, hn⟩ := decoder_eq_ok_iff_exists.1 h
  exact decoder_eq_ok_iff_exists.2 ⟨v, Doc.value?_of_enough hv henough, hn⟩

theorem nullable_of_decoder {levels : Nat} {d : Doc} {n : Nat} (h : decoder levels d = .ok n) :
    Decoder.nullable decoder levels d = .ok (some n) := by
  refine Decoder.nullable_eq_ok_iff.2 (Or.inr ⟨?_, n, h, rfl⟩)
  rintro rfl
  obtain ⟨v, hv, hn⟩ := decoder_eq_ok_iff_exists.1 h
  obtain rfl := Option.some.inj hv
  cases hn

end Amount

namespace OnChainData

variable {levels levels' : Nat}

/-! ## One member -/

namespace Strict

theorem field_settled {s s' : Strict} {name : String} {d : Doc} (henough : Enough levels levels' d)
    (h : field levels s name d = .ok s') : field levels' s name d = .ok s' := by
  unfold field at h ⊢
  split_ifs at h ⊢ with hinfo hbalance hallowance
  · obtain ⟨slot, hslot, rfl⟩ := bind_pure_eq_ok_iff.1 h
    exact bind_pure_eq_ok_iff.2 ⟨slot, Decoder.value_settled.slot henough hslot, rfl⟩
  · obtain ⟨slot, hslot, rfl⟩ := bind_pure_eq_ok_iff.1 h
    exact bind_pure_eq_ok_iff.2 ⟨slot, Amount.decoder_settled.slot henough hslot, rfl⟩
  · obtain ⟨slot, hslot, rfl⟩ := bind_pure_eq_ok_iff.1 h
    exact bind_pure_eq_ok_iff.2 ⟨slot, Amount.decoder_settled.slot henough hslot, rfl⟩
  · exact h

/-- what the lenient reader holds of a value that may be `null` -/
def told (v : Value) : Option Value := if v.isNull then none else some v

/-- what the lenient reader holds when the strict one holds this -/
def lenient (s : Strict) : Lenient := ⟨s.info.map told, s.balance.map some, s.allowance.map some⟩

theorem nullable_value {d : Doc} {v : Value} (h : Decoder.value levels d = .ok v) :
    Decoder.nullable Decoder.value levels d = .ok (told v) := by
  rw [Decoder.nullable_eq _ (Decoder.value_eq_ok_iff.1 h), h, told]
  split_ifs <;> rfl

theorem field_lenient {s s' : Strict} {name : String} {d : Doc} (h : field levels s name d = .ok s') :
    Lenient.field levels s.lenient name d = .ok s'.lenient := by
  unfold field at h
  unfold Lenient.field
  split_ifs at h ⊢ with hinfo hbalance hallowance
  · obtain ⟨slot, hslot, rfl⟩ := bind_pure_eq_ok_iff.1 h
    exact bind_pure_eq_ok_iff.2 ⟨_, Slot.read_map (fun _ => nullable_value) hslot, rfl⟩
  · obtain ⟨slot, hslot, rfl⟩ := bind_pure_eq_ok_iff.1 h
    exact bind_pure_eq_ok_iff.2 ⟨_, Slot.read_map (fun _ => Amount.nullable_of_decoder) hslot, rfl⟩
  · obtain ⟨slot, hslot, rfl⟩ := bind_pure_eq_ok_iff.1 h
    exact bind_pure_eq_ok_iff.2 ⟨_, Slot.read_map (fun _ => Amount.nullable_of_decoder) hslot, rfl⟩
  · obtain ⟨hd, rfl⟩ := skip_eq_ok_iff.1 h
    exact skip_eq_ok_iff.2 ⟨hd, rfl⟩

end Strict

namespace Lenient

/-- an amount is `null` -/
def Spoiled (l : Lenient) : Prop := l.balance = some none ∨ l.allowance = some none

/-- a field that was read is not read again -/
theorem Spoiled.field {l l' : Lenient} (hl : l.Spoiled) {name : String} {d : Doc}
    (h : Lenient.field levels l name d = .ok l') : l'.Spoiled := by
  unfold Lenient.field at h
  split_ifs at h with hinfo hbalance hallowance
  · obtain ⟨slot, -, rfl⟩ := bind_pure_eq_ok_iff.1 h
    exact hl
  · obtain ⟨slot, hslot, rfl⟩ := bind_pure_eq_ok_iff.1 h
    have hempty := (Slot.read_eq_ok_iff.1 hslot).1
    exact Or.inr (hl.resolve_left (by rw [hempty]; exact nofun))
  · obtain ⟨slot, hslot, rfl⟩ := bind_pure_eq_ok_iff.1 h
    have hempty := (Slot.read_eq_ok_iff.1 hslot).1
    exact Or.inl (hl.resolve_right (by rw [hempty]; exact nofun))
  · obtain ⟨-, rfl⟩ := skip_eq_ok_iff.1 h
    exact hl

theorem Spoiled.readMembers {l l' : Lenient} (hl : l.Spoiled) {ms : List (Option String × Doc)}
    (h : readMembers (Lenient.field levels) l ms = .ok l') : l'.Spoiled :=
  readMembers_kept (fun _ _ _ _ hl hfield => hl.field hfield) hl h

theorem complete_eq_some_iff {info : Option Value} {balance allowance : Option Nat} {x : OnChainData} :
    complete info balance allowance = some x ↔
      info = some x.orderInfo ∧ balance = some x.makerBalance ∧ allowance = some x.makerAllowance := by
  obtain ⟨orderInfo, makerBalance, makerAllowance⟩ := x
  cases info <;> cases balance <;> cases allowance <;> simp [complete]

theorem Spoiled.close {l : Lenient} (hl : l.Spoiled) : l.close = none := by
  rw [Option.eq_none_iff_forall_ne_some]
  intro x hx
  obtain ⟨-, hbalance, hallowance⟩ := complete_eq_some_iff.1 hx
  rcases hl with h | h
  · rw [h] at hbalance
    cases hbalance
  · rw [h] at hallowance
    cases hallowance

theorem amount_read {slot : Slot Nat} {slot' : Slot (Option Nat)} {name : String} {d : Doc}
    (h : Slot.read (slot.map some) name (Decoder.nullable Amount.decoder) levels d = .ok slot') :
    slot' = some none ∨ ∃ n, slot.read name Amount.decoder levels d = .ok (some n) ∧ slot' = some (some n) := by
  obtain ⟨hempty, x, hx, rfl⟩ := Slot.read_eq_ok_iff.1 h
  rw [Option.map_eq_none_iff] at hempty
  rcases Decoder.nullable_eq_ok_iff.1 hx with ⟨-, rfl⟩ | ⟨-, n, hn, rfl⟩
  · exact Or.inl rfl
  · exact Or.inr ⟨n, Slot.read_eq_ok_iff.2 ⟨hempty, n, hn, rfl⟩, rfl⟩

theorem info_read {slot : Slot Value} {slot' : Slot (Option Value)} {name : String} {d : Doc}
    (h : Slot.read (slot.map Strict.told) name (Decoder.nullable Decoder.value) levels d = .ok slot') :
    ∃ v, slot.read name Decoder.value levels d = .ok (some v) ∧ slot' = some (Strict.told v) := by
  obtain ⟨hempty, x, hx, rfl⟩ := Slot.read_eq_ok_iff.1 h
  rw [Option.map_eq_none_iff] at hempty
  have hvalue : ∃ v, Decoder.value levels d = .ok v := by
    rcases Decoder.nullable_eq_ok_iff.1 hx with ⟨rfl, -⟩ | ⟨-, v, hv, -⟩
    · exact ⟨.null, rfl⟩
    · exact ⟨v, hv⟩
  obtain ⟨v, hv⟩ := hvalue
  obtain rfl := Except.ok.inj ((Strict.nullable_value hv).symm.trans hx)
  exact ⟨v, Slot.read_eq_ok_iff.2 ⟨hempty, v, hv, rfl⟩, rfl⟩

theorem field_strict {s : Strict} {l : Lenient} {name : String} {d : Doc}
    (h : field levels s.lenient name d = .ok l) :
    l.Spoiled ∨ ∃ s', Strict.field levels s name d = .ok s' ∧ l = s'.lenient := by
  unfold field at h
  unfold Strict.field
  split_ifs at h ⊢ with hinfo hbalance hallowance
  · obtain ⟨slot, hslot, rfl⟩ := bind_pure_eq_ok_iff.1 h
    obtain ⟨v, hv, rfl⟩ := info_read hslot
    exact Or.inr ⟨_, bind_pure_eq_ok_iff.2 ⟨_, hv, rfl⟩, rfl⟩
  · obtain ⟨slot, hslot, rfl⟩ := bind_pure_eq_ok_iff.1 h
    rcases amount_read hslot with rfl | ⟨n, hn, rfl⟩
    · exact Or.inl (Or.inl rfl)
    · exact Or.inr ⟨_, bind_pure_eq_ok_iff.2 ⟨_, hn, rfl⟩, rfl⟩
  · obtain ⟨slot, hslot, rfl⟩ := bind_pure_eq_ok_iff.1 h
    rcases amount_read hslot with rfl | ⟨n, hn, rfl⟩
    · exact Or.inl (Or.inr rfl)
    · exact Or.inr ⟨_, bind_pure_eq_ok_iff.2 ⟨_, hn, rfl⟩, rfl⟩
  · obtain ⟨hd, rfl⟩ := skip_eq_ok_iff.1 h
    exact Or.inr ⟨s, skip_eq_ok_iff.2 ⟨hd, rfl⟩, rfl⟩

/-- a run of the lenient reader is one of the strict reader, unless an amount is `null` -/
theorem readMembers_strict {s : Strict} {l : Lenient} {ms : List (Option String × Doc)}
    (h : Json.readMembers (field levels) s.lenient ms = .ok l) :
    l.Spoiled ∨ ∃ s', Json.readMembers (Strict.field levels) s ms = .ok s' ∧ l = s'.lenient := by
  induction ms generalizing s with
  | nil =>
    obtain rfl := Except.ok.inj h
    exact Or.inr ⟨s, rfl, rfl⟩
  | cons m ms ih =>
    obtain ⟨key, l₁, hkey, hfield, hrest⟩ := readMembers_cons_eq_ok_iff.1 h
    -- no later member undoes an amount that is `null`
    rcases field_strict hfield with hspoiled | ⟨s₁, hs₁, rfl⟩
    · exact Or.inl (hspoiled.readMembers hrest)
    · rcases ih hrest with hspoiled | ⟨s', hs', rfl⟩
      · exact Or.inl hspoiled
      · exact Or.inr ⟨s', readMembers_cons_eq_ok_iff.2 ⟨key, s₁, hkey, hs₁, hs'⟩, rfl⟩

end Lenient

/-! ## All members -/

namespace Strict

theorem close_eq_ok_iff {s : Strict} {x : OnChainData} :
    s.close = .ok x ↔ s = ⟨some x.orderInfo, some x.makerBalance, some x.makerAllowance⟩ := by
  obtain ⟨orderInfo, makerBalance, makerAllowance⟩ := x
  obtain ⟨info, balance, allowance⟩ := s
  cases info <;> cases balance <;> cases allowance <;>
    simp [close, Slot.required, fault, bind, Except.bind, pure, Except.pure]

theorem told_eq_some_iff {v w : Value} : told v = some w ↔ v = w ∧ w.isNull = false := by
  rw [told]
  split_ifs with h
  · refine iff_of_false nofun ?_
    rintro ⟨rfl, hw⟩
    exact Bool.false_ne_true (hw.symm.trans h)
  · rw [Option.some.injEq]
    refine ⟨?_, And.left⟩
    rintro rfl
    exact ⟨rfl, Bool.eq_false_of_not_eq_true h⟩

theorem complete_told (x : OnChainData) :
    Lenient.complete (told x.orderInfo) (some x.makerBalance) (some x.makerAllowance) =
      if x.orderInfo.isNull then none else some x := by
  rw [told]
  split_ifs <;> rfl

/-- the lenient reader ends with the same, or with none if the state of the order is `null` -/
theorem close_lenient {s : Strict} {x : OnChainData} (h : s.close = .ok x) :
    s.lenient.close = if x.orderInfo.isNull then none else some x := by
  obtain rfl := close_eq_ok_iff.1 h
  exact complete_told x

theorem close_of_lenient {s : Strict} {x : OnChainData} (h : s.lenient.close = some x) : s.close = .ok x := by
  obtain ⟨info, balance, allowance⟩ := s
  obtain ⟨hinfo, hbalance, hallowance⟩ := Lenient.complete_eq_some_iff.1 h
  rw [close_eq_ok_iff]
  simp only [lenient, Option.join_eq_some_iff, Option.map_eq_some_iff] at hinfo hbalance hallowance
  obtain ⟨v, rfl, hv⟩ := hinfo
  obtain ⟨b, rfl, hb⟩ := hbalance
  obtain ⟨a, rfl, ha⟩ := hallowance
  rw [(told_eq_some_iff.1 hv).1, Option.some.inj hb, Option.some.inj ha]

end Strict

/-! ## Items -/

theorem Strict.run_items_eq_ok_iff {ds : List Doc} {x : OnChainData} :
    (Strict.items levels).run ds = .ok x ↔ ∃ info balance allowance, ds = [info, balance, allowance] ∧
      Decoder.value levels info = .ok x.orderInfo ∧ Amount.decoder levels balance = .ok x.makerBalance ∧
        Amount.decoder levels allowance = .ok x.makerAllowance := by
  simp only [Strict.items, Items.run_nextOr_eq_ok_iff, Items.run_pure_eq_ok_iff]
  constructor
  · rintro ⟨v, hv, b, hb, a, ha, hnil, rfl⟩
    obtain ⟨info, ds, rfl, hv⟩ := Items.exists_cons hv nofun
    obtain ⟨balance, ds, rfl, hb⟩ := Items.exists_cons hb nofun
    obtain ⟨allowance, ds, rfl, ha⟩ := Items.exists_cons ha nofun
    obtain rfl : ds = [] := hnil
    exact ⟨info, balance, allowance, rfl, hv, hb, ha⟩
  · rintro ⟨info, balance, allowance, rfl, hv, hb, ha⟩
    exact ⟨_, hv, _, hb, _, ha, rfl, rfl⟩

namespace Lenient

/-- three items, each of which may be `null` -/
theorem run_items {info balance allowance : Doc} {v : Option Value} {b a : Option Nat}
    (hv : Decoder.nullable Decoder.value levels info = .ok v)
    (hb : Decoder.nullable Amount.decoder levels balance = .ok b)
    (ha : Decoder.nullable Amount.decoder levels allowance = .ok a) :
    (items levels).run [info, balance, allowance] = .ok (complete v b a) := by
  simp only [items, Items.run_nextOr_eq_ok_iff, Items.run_pure_eq_ok_iff]
  exact ⟨v, hv, b, hb, a, ha, rfl, rfl⟩

/-- an item that is missing is nothing, and so is what it is missing from -/
theorem exists_items {ds : List Doc} {x : OnChainData} (h : (items levels).run ds = .ok (some x)) :
    ∃ info balance allowance, ds = [info, balance, allowance] ∧
      Decoder.nullable Decoder.value levels info = .ok (some x.orderInfo) ∧
        Decoder.nullable Amount.decoder levels balance = .ok (some x.makerBalance) ∧
          Decoder.nullable Amount.decoder levels allowance = .ok (some x.makerAllowance) := by
  simp only [items, Items.run_nextOr_eq_ok_iff, Items.run_pure_eq_ok_iff] at h
  obtain ⟨v, hv, b, hb, a, ha, hnil, hcomplete⟩ := h
  obtain ⟨rfl, rfl, rfl⟩ := complete_eq_some_iff.1 hcomplete.symm
  obtain ⟨info, ds, rfl, hv⟩ := Items.exists_cons hv nofun
  obtain ⟨balance, ds, rfl, hb⟩ := Items.exists_cons hb nofun
  obtain ⟨allowance, ds, rfl, ha⟩ := Items.exists_cons ha nofun
  obtain rfl : ds = [] := hnil
  exact ⟨info, balance, allowance, rfl, hv, hb, ha⟩

end Lenient

/-! ## Documents -/

theorem decoder_eq_ok_iff {d : Doc} {x : OnChainData} :
    decoder levels d = .ok x ↔ ∃ inner, levels = inner + 1 ∧
      ((∃ ms, d = .object ms ∧ ∃ s, readMembers (Strict.field inner) {} ms = .ok s ∧ s.close = .ok x) ∨
        ∃ ds, d = .array ds ∧ (Strict.items inner).run ds = .ok x) := by
  simp only [decoder, Decoder.record_eq_ok_iff, bind_eq_ok_iff]

theorem lenientDecoder_eq_ok_iff {d : Doc} {y : Option OnChainData} :
    lenientDecoder levels d = .ok y ↔ d = .null ∧ y = none ∨ ∃ inner, levels = inner + 1 ∧
      ((∃ ms, d = .object ms ∧ ∃ l, readMembers (Lenient.field inner) {} ms = .ok l ∧ l.close = y) ∨
        ∃ ds, d = .array ds ∧ (Lenient.items inner).run ds = .ok y) := by
  simp only [lenientDecoder, bind_pure_eq_ok_iff, Decoder.nullable_eq_ok_iff, Decoder.record_eq_ok_iff]
  constructor
  · rintro ⟨data, ⟨rfl, rfl⟩ | ⟨-, y', ⟨inner, rfl, h⟩, rfl⟩, rfl⟩
    · exact Or.inl ⟨rfl, rfl⟩
    · exact Or.inr ⟨inner, rfl, h⟩
  · rintro (⟨rfl, rfl⟩ | ⟨inner, rfl, h⟩)
    · exact ⟨none, Or.inl ⟨rfl, rfl⟩, rfl⟩
    · have hd : d ≠ .null := by
        rintro rfl
        rcases h with ⟨ms, hms, -⟩ | ⟨ds, hds, -⟩
        · cases hms
        · cases hds
      exact ⟨some y, Or.inr ⟨hd, y, ⟨inner, rfl, h⟩, rfl⟩, rfl⟩

/-- what is read on its own is read inside an order, unless it says nothing about the order -/
theorem lenientDecoder_of_decoder {d : Doc} {x : OnChainData} (h : decoder levels d = .ok x) :
    lenientDecoder levels d = .ok (if x.orderInfo.isNull then none else some x) := by
  obtain ⟨inner, rfl, ⟨ms, rfl, s, hs, hclose⟩ | ⟨ds, rfl, hitems⟩⟩ := decoder_eq_ok_iff.1 h
  · obtain ⟨l, hl, rfl⟩ := readMembers_of_step (R := fun s l => l = s.lenient) (t := {})
      (fun _ _ _ _ _ _ hR hfield => ⟨_, hR ▸ Strict.field_lenient hfield, rfl⟩) rfl hs
    exact lenientDecoder_eq_ok_iff.2 (Or.inr ⟨inner, rfl, Or.inl ⟨ms, rfl, _, hl, Strict.close_lenient hclose⟩⟩)
  · obtain ⟨info, balance, allowance, rfl, hv, hb, ha⟩ := Strict.run_items_eq_ok_iff.1 hitems
    have hrun := Lenient.run_items (Strict.nullable_value hv) (Amount.nullable_of_decoder hb)
      (Amount.nullable_of_decoder ha)
    rw [Strict.complete_told] at hrun
    exact lenientDecoder_eq_ok_iff.2 (Or.inr ⟨inner, rfl, Or.inr ⟨_, rfl, hrun⟩⟩)

/-- on-chain data that an order has is read on its own -/
theorem decoder_of_lenientDecoder {d : Doc} {x : OnChainData} (h : lenientDecoder levels d = .ok (some x)) :
    decoder levels d = .ok x := by
  rcases lenientDecoder_eq_ok_iff.1 h with ⟨-, hnone⟩ | ⟨inner, rfl, ⟨ms, rfl, l, hl, hclose⟩ | ⟨ds, rfl, hitems⟩⟩
  · cases hnone
  · rcases Lenient.readMembers_strict (s := {}) hl with hspoiled | ⟨s, hs, rfl⟩
    · cases hspoiled.close.symm.trans hclose
    · exact decoder_eq_ok_iff.2 ⟨inner, rfl, Or.inl ⟨ms, rfl, s, hs, Strict.close_of_lenient hclose⟩⟩
  · obtain ⟨info, balance, allowance, rfl, hv, hb, ha⟩ := Lenient.exists_items hitems
    have hrun : (Strict.items inner).run [info, balance, allowance] = .ok x :=
      Strict.run_items_eq_ok_iff.2 ⟨info, balance, allowance, rfl, Decoder.of_nullable hv, Decoder.of_nullable hb,
        Decoder.of_nullable ha⟩
    exact decoder_eq_ok_iff.2 ⟨inner, rfl, Or.inr ⟨_, rfl, hrun⟩⟩

/-- the depth of the reader does not matter to what is read, if it is enough -/
theorem decoder_settled : decoder.Settled := by
  intro levels levels' d x h henough
  obtain ⟨inner, rfl, ⟨ms, rfl, s, hs, hclose⟩ | ⟨ds, rfl, hitems⟩⟩ := decoder_eq_ok_iff.1 h
  · obtain ⟨inner', rfl⟩ := henough.exists_succ (Nat.succ_pos _)
    obtain ⟨s', hs', rfl⟩ := readMembers_of_step (R := Eq)
      (fun m hm _ _ _ _ hR hfield => ⟨_, hR ▸ Strict.field_settled (henough.member hm) hfield, rfl⟩) rfl hs
    exact decoder_eq_ok_iff.2 ⟨inner', rfl, Or.inl ⟨ms, rfl, _, hs', hclose⟩⟩
  · obtain ⟨inner', rfl⟩ := henough.exists_succ (Nat.succ_pos _)
    obtain ⟨info, balance, allowance, rfl, hv, hb, ha⟩ := Strict.run_items_eq_ok_iff.1 hitems
    have hrun : (Strict.items inner').run [info, balance, allowance] = .ok x :=
      Strict.run_items_eq_ok_iff.2 ⟨info, balance, allowance, rfl,
        Decoder.value_settled _ _ _ _ hv (henough.item (by simp)),
        Amount.decoder_settled _ _ _ _ hb (henough.item (by simp)),
        Amount.decoder_settled _ _ _ _ ha (henough.item (by simp))⟩
    exact decoder_eq_ok_iff.2 ⟨inner', rfl, Or.inr ⟨_, rfl, hrun⟩⟩

end OnChainData

/-! ## Texts -/

namespace Order

/-- the text of an order that has a hash and the text of on-chain data -/
def textAround (hash t : String) : String :=
  "\x7b\"orderHash\":" ++ String.ofList (quote hash) ++ ",\"onChainData\":" ++ t ++ "\x7d"

theorem textAround_eq (hash t : String) :
    textAround hash t = objectText [(hashField, String.ofList (quote hash)), (onChainField, t)] := by
  have hhash : "\x7b\"orderHash\":" = "\x7b" ++ (String.ofList (quote hashField) ++ ":") := by decide
  have honChain : ",\"onChainData\":" = "," ++ (String.ofList (quote onChainField) ++ ":") := by decide
  have hparts : textAround hash t = "\x7b" ++ (String.ofList (quote hashField) ++ ":") ++ String.ofList (quote hash) ++
      ("," ++ (String.ofList (quote onChainField) ++ ":")) ++ t ++ "\x7d" :=
    congrArg₂ (fun a b => a ++ String.ofList (quote hash) ++ b ++ t ++ "\x7d") hhash honChain
  rw [hparts]
  simp only [objectText, List.map_cons, List.map_nil, String.intercalate_cons_cons, String.intercalate_singleton,
    String.append_assoc]

theorem writtenAs_textAround (hash : String) {t : String} {d : Doc} (h : d.WrittenAs t) :
    (Doc.record [(hashField, .text hash), (onChainField, d)]).WrittenAs (textAround hash t) := by
  have hquote : (Doc.text hash).WrittenAs (String.ofList (quote hash)) := by
    refine ⟨_, .text (some hash), ?_⟩
    rw [String.toList_ofList]
    exact Lexemes.quote hash
  rw [textAround_eq]
  exact @Doc.writtenAs_record [(hashField, .text hash, String.ofList (quote hash)), (onChainField, d, t)]
    (List.forall_mem_cons.2 ⟨hquote, List.forall_mem_cons.2 ⟨h, nofun⟩⟩)

/-- an order around on-chain data has what the lenient reader finds there -/
theorem decode_textAround (hash : String) {t : String} {d : Doc} (h : d.WrittenAs t) :
    decode (textAround hash t) =
      (OnChainData.lenientDecoder 126 d).map fun data => { hash := hash, onChainData := data } := by
  have hhash : Fields.field 126 {} hashField (.text hash) = .ok { hash := some hash } := by
    simp only [Fields.field, if_true]
    rfl
  have honChain : Fields.field 126 { hash := some hash } onChainField d =
      (OnChainData.lenientDecoder 126 d).map fun data => { hash := some hash, onChainData := some data } := by
    simp only [Fields.field, hashField, bookField, offChainField, onChainField, String.reduceEq, if_true, if_false,
      Slot.read]
    cases OnChainData.lenientDecoder 126 d <;> rfl
  have hrecord : decoder maxDepth (.record [(hashField, .text hash), (onChainField, d)]) =
      (readMembers (Fields.field 126) {} [(some hashField, .text hash), (some onChainField, d)]).bind Fields.close :=
    rfl
  rw [decode, decode_of_writtenAs decoder (writtenAs_textAround hash h), hrecord, readMembers_of_ok hhash]
  cases hdata : OnChainData.lenientDecoder 126 d with
  | ok data =>
    rw [hdata] at honChain
    rw [readMembers_of_ok honChain]
    rfl
  | error e =>
    rw [hdata] at honChain
    rw [readMembers_of_error honChain]
    rfl

/-- **On-chain data on its own and inside an order.** What is read of a text on its own, an order around the text has as
its on-chain data, unless it says nothing about the order; and an order has nothing else. -/
theorem onChainData_textAround (hash : String) {t : String} {d : Doc} (h : d.WrittenAs t) (hdepth : d.depth ≤ 126) :
    (∀ x, Json.decode OnChainData.decoder t = .ok x → x.orderInfo.isNull = false →
        decode (textAround hash t) = .ok { hash := hash, onChainData := some x }) ∧
      (∀ x, Json.decode OnChainData.decoder t = .ok x → x.orderInfo.isNull = true →
        decode (textAround hash t) = .ok { hash := hash, onChainData := none }) ∧
      ∀ o x, decode (textAround hash t) = .ok o → o.onChainData = some x →
        Json.decode OnChainData.decoder t = .ok x := by
  rw [decode_of_writtenAs OnChainData.decoder h, decode_textAround hash h]
  have hlenient : ∀ x, OnChainData.decoder maxDepth d = .ok x →
      OnChainData.lenientDecoder 126 d = .ok (if x.orderInfo.isNull then none else some x) := fun x hx =>
    -- inside the order there is one level less, which the text does not need
    OnChainData.lenientDecoder_of_decoder (OnChainData.decoder_settled _ _ _ _ hx (Or.inr hdepth))
  refine ⟨?_, ?_, ?_⟩
  · intro x hx hnull
    rw [hlenient x hx, hnull]
    rfl
  · intro x hx hnull
    rw [hlenient x hx, hnull]
    rfl
  · intro o x ho hx
    cases hdata : OnChainData.lenientDecoder 126 d with
    | error e =>
      rw [hdata] at ho
      cases ho
    | ok data =>
      rw [hdata] at ho
      obtain rfl := Except.ok.inj ho
      obtain rfl : data = some x := hx
      exact OnChainData.decoder_settled _ _ _ _ (OnChainData.decoder_of_lenientDecoder hdata) (Or.inl (Nat.le_succ _))

/-- fields in another order, one that is not known, and amounts of two kinds; and an array whose first item is `null` -/
theorem onChainData_textAround_reordered :
    let full := "\x7b\"makerAllowance_weiUnits\":\"+1_0\",\"x\":[[]],\"orderInfo\":[1],\"makerBalance_weiUnits\":5\x7d"
    let silent := "[null,\"1\",2]"
    (Json.decode OnChainData.decoder full = .ok ⟨.array [.number (.whole ⟨1, by decide, by decide⟩)], 5, 10⟩ ∧
        decode (textAround "0x1" full) = .ok ⟨"0x1", "", .null,
          some ⟨.array [.number (.whole ⟨1, by decide, by decide⟩)], 5, 10⟩⟩) ∧
      Json.decode OnChainData.decoder silent = .ok ⟨.null, 1, 2⟩ ∧
        decode (textAround "0x1" silent) = .ok ⟨"0x1", "", .null, none⟩ := by
  intro full silent
  have hsilent : (Doc.array [.null, .text "1", .number (.whole ⟨2, by decide, by decide⟩)]).WrittenAs silent := by
    unfold silent
    exact Doc.writtenAs_iff.2 ⟨by cbv, by cbv⟩
  have hfull : (Doc.object [(some "makerAllowance_weiUnits", .text "+1_0"), (some "x", .array [.array []]),
      (some "orderInfo", .array [.number (.whole ⟨1, by decide, by decide⟩)]),
      (some "makerBalance_weiUnits", .number (.whole ⟨5, by decide, by decide⟩))]).WrittenAs full := by
    unfold full
    exact Doc.writtenAs_iff.2 ⟨by cbv, by cbv⟩
  have hreadSilent : Json.decode OnChainData.decoder silent = .ok ⟨.null, 1, 2⟩ := by
    unfold silent
    cbv
  have hreadFull : Json.decode OnChainData.decoder full =
      .ok ⟨.array [.number (.whole ⟨1, by decide, by decide⟩)], 5, 10⟩ := by
    unfold full
    cbv
  obtain ⟨hsome, -, hback⟩ := onChainData_textAround "0x1" hfull (by decide)
  obtain ⟨-, hnone, -⟩ := onChainData_textAround "0x1" hsilent (by decide)
  have horder := hsome _ hreadFull rfl
  exact ⟨⟨hback _ _ horder rfl, horder⟩, hreadSilent, hnone _ hreadSilent rfl⟩

end Order

end ReplicatedOrders
