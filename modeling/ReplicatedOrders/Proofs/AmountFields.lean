/-
One field of a record: an amount in on-chain data, and on-chain data in an order.

`Doc.Field` puts a document into a record as one of its fields, a member or an item, with anything around it. A reader
of the record depends on the document only by what the reader of the field makes of it.
- `amount_of_decoder`, `decoder_congr`: an amount in on-chain data on its own.
- `read_of_lenientDecoder`, `lenientDecoder_congr`: an amount in on-chain data inside an order. It is read even if
  another field is missing.
- `Order.onChainData_of_decoder`, `Order.decoder_congr`: on-chain data in an order.
-/
import ReplicatedOrders.Proofs.Leniency

namespace ReplicatedOrders

open Json

namespace OnChainData

/-- the fields that hold an amount -/
inductive AmountField where
  | balance
  | allowance
deriving DecidableEq, Repr

namespace AmountField

def name : AmountField → String
  | balance => balanceField
  | allowance => allowanceField

/-- the place of the field in on-chain data that is written as an array -/
def place : AmountField → Nat
  | balance => 1
  | allowance => 2

def of : AmountField → OnChainData → Nat
  | balance => makerBalance
  | allowance => makerAllowance

def slot : AmountField → Strict → Slot Nat
  | balance => Strict.balance
  | allowance => Strict.allowance

def fill : AmountField → Strict → Slot Nat → Strict
  | balance, s, slot => { s with balance := slot }
  | allowance, s, slot => { s with allowance := slot }

def lenientSlot : AmountField → Lenient → Slot (Option Nat)
  | balance => Lenient.balance
  | allowance => Lenient.allowance

def fillLenient : AmountField → Lenient → Slot (Option Nat) → Lenient
  | balance, l, slot => { l with balance := slot }
  | allowance, l, slot => { l with allowance := slot }

theorem slot_fill (f : AmountField) (s : Strict) (slot : Slot Nat) : f.slot (f.fill s slot) = slot := by
  cases f <;> rfl

end AmountField

variable {levels : Nat} (f : AmountField)

/-! ## On-chain data on its own -/

namespace Strict

theorem field_name (s : Strict) (d : Doc) :
    field levels s f.name d = do return f.fill s (← (f.slot s).read f.name Amount.decoder levels d) := by
  cases f <;>
    simp [field, AmountField.name, AmountField.slot, AmountField.fill, infoField, balanceField, allowanceField]

theorem field_kept {n : Nat} (s s' : Strict) (name : String) (d : Doc) (hs : f.slot s = some n)
    (h : field levels s name d = .ok s') : f.slot s' = some n := by
  unfold field at h
  split_ifs at h
  · obtain ⟨slot, -, rfl⟩ := bind_pure_eq_ok_iff.1 h
    cases f <;> exact hs
  · obtain ⟨slot, hslot, rfl⟩ := bind_pure_eq_ok_iff.1 h
    have hempty := (Slot.read_eq_ok_iff.1 hslot).1
    cases f with
    | balance => cases hs.symm.trans hempty
    | allowance => exact hs
  · obtain ⟨slot, hslot, rfl⟩ := bind_pure_eq_ok_iff.1 h
    have hempty := (Slot.read_eq_ok_iff.1 hslot).1
    cases f with
    | balance => exact hs
    | allowance => cases hs.symm.trans hempty
  · obtain ⟨-, rfl⟩ := skip_eq_ok_iff.1 h
    exact hs

end Strict

variable {f} {c : Doc → Doc} {v w : Doc}

/-- an amount is read from the field that holds it -/
theorem amount_of_decoder (hc : Doc.Field f.name f.place c) {x : OnChainData} (h : decoder levels (c v) = .ok x) :
    ∃ inner, Amount.decoder inner v = .ok (f.of x) := by
  obtain ⟨inner, -, h⟩ := decoder_eq_ok_iff.1 h
  refine ⟨inner, ?_⟩
  cases hc with
  | member before after =>
    obtain ⟨ms, hms, s, hs, hclose⟩ | ⟨ds, hds, -⟩ := h
    · obtain rfl := Doc.object.inj hms
      obtain ⟨s₁, s₂, hfield, hafter⟩ := readMembers_member hs
      rw [Strict.field_name] at hfield
      obtain ⟨slot, hslot, rfl⟩ := bind_pure_eq_ok_iff.1 hfield
      obtain ⟨-, n, hn, rfl⟩ := Slot.read_eq_ok_iff.1 hslot
      have hfilled := readMembers_kept (Strict.field_kept f) (f.slot_fill _ _) hafter
      obtain rfl := Strict.close_eq_ok_iff.1 hclose
      cases f <;> exact hn.trans (congrArg Except.ok (Option.some.inj hfilled).symm)
    · cases hds
  | @item before after hplace =>
    obtain ⟨ms, hms, -⟩ | ⟨ds, hds, hitems⟩ := h
    · cases hms
    · obtain rfl := Doc.array.inj hds
      obtain ⟨info, balance, allowance, hlist, -, hbalance, hallowance⟩ := Strict.run_items_eq_ok_iff.1 hitems
      cases f with
      | balance =>
        obtain ⟨i, rfl⟩ := List.length_eq_one_iff.1 hplace
        obtain ⟨-, rfl, -⟩ : i = info ∧ v = balance ∧ after = [allowance] := by simpa using hlist
        exact hbalance
      | allowance =>
        obtain ⟨i, b, rfl⟩ := List.length_eq_two.1 hplace
        obtain ⟨-, -, rfl, -⟩ : i = info ∧ b = balance ∧ v = allowance ∧ after = [] := by simpa using hlist
        exact hallowance

/-- a field of an amount may be replaced by another that is read as the same -/
theorem decoder_congr (hc : Doc.Field f.name f.place c)
    (h : ∀ levels, Amount.decoder levels v = Amount.decoder levels w) (levels : Nat) :
    decoder levels (c v) = decoder levels (c w) := by
  cases levels with
  | zero => cases hc <;> rfl
  | succ levels =>
    cases hc with
    | member before after =>
      have hfield : ∀ s, Strict.field levels s f.name v = Strict.field levels s f.name w := by
        intro s
        rw [Strict.field_name, Strict.field_name, Slot.read_congr (h levels)]
      show (do (← readMembers (Strict.field levels) {} _).close) = _
      rw [readMembers_congr hfield]
      rfl
    | @item before after hplace =>
      show (Strict.items levels).run _ = (Strict.items levels).run _
      cases f with
      | balance =>
        obtain ⟨i, rfl⟩ := List.length_eq_one_iff.1 hplace
        simp only [Strict.items, Items.run_nextOr_cons, List.cons_append, List.nil_append, h levels]
      | allowance =>
        obtain ⟨i, b, rfl⟩ := List.length_eq_two.1 hplace
        simp only [Strict.items, Items.run_nextOr_cons, List.cons_append, List.nil_append, h levels]

/-! ## On-chain data inside an order -/

namespace Lenient

theorem field_name (l : Lenient) (d : Doc) :
    field levels l f.name d = do
      return f.fillLenient l (← (f.lenientSlot l).read f.name (Decoder.nullable Amount.decoder) levels d) := by
  cases f <;>
    simp [field, AmountField.name, AmountField.lenientSlot, AmountField.fillLenient, infoField, balanceField,
      allowanceField]

end Lenient

/-- a field of an amount is read even if nothing comes of the others -/
theorem read_of_lenientDecoder (hc : Doc.Field f.name f.place c) {y : Option OnChainData}
    (h : lenientDecoder levels (c v) = .ok y) : ∃ inner a, Decoder.nullable Amount.decoder inner v = .ok a := by
  cases hc with
  | member before after =>
    obtain ⟨hnull, -⟩ | ⟨inner, -, ⟨ms, hms, l, hl, -⟩ | ⟨ds, hds, -⟩⟩ := lenientDecoder_eq_ok_iff.1 h
    · cases hnull
    · obtain rfl := Doc.object.inj hms
      obtain ⟨l₁, l₂, hfield, -⟩ := readMembers_member hl
      rw [Lenient.field_name] at hfield
      obtain ⟨slot, hslot, -⟩ := bind_pure_eq_ok_iff.1 hfield
      obtain ⟨-, a, ha, -⟩ := Slot.read_eq_ok_iff.1 hslot
      exact ⟨inner, a, ha⟩
    · cases hds
  | @item before after hplace =>
    obtain ⟨hnull, -⟩ | ⟨inner, -, ⟨ms, hms, -⟩ | ⟨ds, hds, hitems⟩⟩ := lenientDecoder_eq_ok_iff.1 h
    · cases hnull
    · cases hms
    · obtain rfl := Doc.array.inj hds
      simp only [Lenient.items, Items.run_nextOr_eq_ok_iff] at hitems
      obtain ⟨-, -, a, ha, a', ha', -⟩ := hitems
      cases f with
      | balance =>
        obtain ⟨i, rfl⟩ := List.length_eq_one_iff.1 hplace
        exact ⟨inner, a, ha⟩
      | allowance =>
        obtain ⟨i, b, rfl⟩ := List.length_eq_two.1 hplace
        exact ⟨inner, a', ha'⟩

theorem lenientDecoder_congr (hc : Doc.Field f.name f.place c)
    (h : ∀ levels, Decoder.nullable Amount.decoder levels v = Decoder.nullable Amount.decoder levels w) (levels : Nat) :
    lenientDecoder levels (c v) = lenientDecoder levels (c w) := by
  cases levels with
  | zero => cases hc <;> rfl
  | succ levels =>
    cases hc with
    | member before after =>
      have hfield : ∀ l, Lenient.field levels l f.name v = Lenient.field levels l f.name w := by
        intro l
        rw [Lenient.field_name, Lenient.field_name, Slot.read_congr (h levels)]
      simp only [lenientDecoder, Decoder.nullable, Decoder.record, readMembers_congr hfield]
    | @item before after hplace =>
      have hitems : (Lenient.items levels).run (before ++ v :: after) =
          (Lenient.items levels).run (before ++ w :: after) := by
        cases f with
        | balance =>
          obtain ⟨i, rfl⟩ := List.length_eq_one_iff.1 hplace
          simp only [Lenient.items, Items.run_nextOr_cons, List.cons_append, List.nil_append, h levels]
        | allowance =>
          obtain ⟨i, b, rfl⟩ := List.length_eq_two.1 hplace
          simp only [Lenient.items, Items.run_nextOr_cons, List.cons_append, List.nil_append, h levels]
      simp only [lenientDecoder, Decoder.nullable, Decoder.record, hitems]

end OnChainData

/-! ## Orders -/

namespace Order

/-- the place of on-chain data in an order that is written as an array -/
def onChainPlace : Nat := 3

namespace Fields

theorem field_onChain {levels : Nat} (s : Fields) (d : Doc) :
    field levels s onChainField d = do
      return { s with onChainData := ← s.onChainData.read onChainField OnChainData.lenientDecoder levels d } := by
  simp [field, hashField, bookField, offChainField, onChainField]

theorem field_kept {levels : Nat} {y : Option OnChainData} (s s' : Fields) (name : String) (d : Doc)
    (hs : s.onChainData = some y) (h : field levels s name d = .ok s') : s'.onChainData = some y := by
  unfold field at h
  split_ifs at h
  · obtain ⟨slot, -, rfl⟩ := bind_pure_eq_ok_iff.1 h
    exact hs
  · obtain ⟨slot, -, rfl⟩ := bind_pure_eq_ok_iff.1 h
    exact hs
  · obtain ⟨slot, -, rfl⟩ := bind_pure_eq_ok_iff.1 h
    exact hs
  · obtain ⟨slot, hslot, rfl⟩ := bind_pure_eq_ok_iff.1 h
    cases hs.symm.trans (Slot.read_eq_ok_iff.1 hslot).1
  · obtain ⟨-, rfl⟩ := skip_eq_ok_iff.1 h
    exact hs

end Fields

variable {levels : Nat} {k : Doc → Doc} {v w : Doc}

/-- on-chain data is read from its field -/
theorem onChainData_of_decoder (hk : Doc.Field onChainField onChainPlace k) {o : Order}
    (h : decoder levels (k v) = .ok o) : ∃ inner, OnChainData.lenientDecoder inner v = .ok o.onChainData := by
  obtain ⟨inner, -, h⟩ := Decoder.record_eq_ok_iff.1 h
  refine ⟨inner, ?_⟩
  cases hk with
  | member before after =>
    obtain ⟨ms, hms, hread⟩ | ⟨ds, hds, -⟩ := h
    · obtain rfl := Doc.object.inj hms
      obtain ⟨s, hs, hclose⟩ := bind_eq_ok_iff.1 hread
      obtain ⟨s₁, s₂, hfield, hafter⟩ := readMembers_member hs
      rw [Fields.field_onChain] at hfield
      obtain ⟨slot, hslot, rfl⟩ := bind_pure_eq_ok_iff.1 hfield
      obtain ⟨-, y, hy, rfl⟩ := Slot.read_eq_ok_iff.1 hslot
      have hfilled := readMembers_kept (P := fun s => s.onChainData = some y) Fields.field_kept rfl hafter
      obtain ⟨hash, -, rfl⟩ := bind_pure_eq_ok_iff.1 hclose
      rw [hy]
      show _ = Except.ok s.onChainData.join
      rw [hfilled]
      rfl
    · cases hds
  | @item before after hplace =>
    obtain ⟨ms, hms, -⟩ | ⟨ds, hds, hitems⟩ := h
    · cases hms
    · obtain rfl := Doc.array.inj hds
      simp only [Fields.items, Items.run_nextOr_eq_ok_iff, Items.run_pure_eq_ok_iff] at hitems
      obtain ⟨hash, -, book, -, off, -, y, hy, -, rfl⟩ := hitems
      obtain ⟨a, b, e, rfl⟩ := List.length_eq_three.1 hplace
      exact hy

theorem decoder_congr (hk : Doc.Field onChainField onChainPlace k)
    (h : ∀ levels, OnChainData.lenientDecoder levels v = OnChainData.lenientDecoder levels w) (levels : Nat) :
    decoder levels (k v) = decoder levels (k w) := by
  cases levels with
  | zero => cases hk <;> rfl
  | succ levels =>
    cases hk with
    | member before after =>
      have hfield : ∀ s, Fields.field levels s onChainField v = Fields.field levels s onChainField w := by
        intro s
        rw [Fields.field_onChain, Fields.field_onChain, Slot.read_congr (h levels)]
      simp only [decoder, Decoder.record, readMembers_congr hfield]
    | @item before after hplace =>
      obtain ⟨a, b, e, rfl⟩ := List.length_eq_three.1 hplace
      simp only [decoder, Decoder.record, Fields.items, Items.run_nextOr_cons, List.cons_append, List.nil_append,
        h levels]

end Order

end ReplicatedOrders
