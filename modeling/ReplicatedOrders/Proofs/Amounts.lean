/-
Amounts: which values are read as an amount, and which amount each of them is.

An amount is written as its canonical decimal numeral. It is read by way of the text of a leaf, so a boolean becomes a
word and an integer its digits before anything is looked at. `Amount.Denotes` says what is an amount without that way:
an integer that is not negative, or a text of digits. Real numbers are apart, since they are rounded on the way.
- `Numeral.digitIn_ten`, `Numeral.isLong_ten_iff`: decimal numerals by their characters.
- `Amount.compact_toDoc`: an amount as text.
- `Amount.ofValue_eq_ok_iff`: what is read is what the value denotes.
- `Amount.decoder_exact`: writing and reading together, with the reader for which `null` is nothing.
-/
import ReplicatedOrders.Proofs.Json.Normal
import ReplicatedOrders.Proofs.Numerals
import ReplicatedOrders.Proofs.Wire

namespace ReplicatedOrders

open Json

/-! ## Decimal numerals by their characters -/

namespace Numeral

theorem digitIn_ten (c : Char) : digitIn 10 c = if c.isDigit then some (c.toNat - '0'.toNat) else none := by
  by_cases hc : c.isDigit = true
  · have hrange : '0' ≤ c ∧ c ≤ '9' := by simpa [Char.isDigit, Char.le_def] using hc
    have hhigh : c.toNat ≤ 57 := UInt32.le_iff_toNat_le.1 hrange.2
    rw [if_pos hc, digitIn, digitOf, if_pos hrange]
    refine Option.filter_eq_some_iff.2 ⟨rfl, ?_⟩
    have hlt : c.toNat - 48 < 10 := by omega
    exact decide_eq_true hlt
  · rw [if_neg hc, Option.eq_none_iff_forall_ne_some]
    intro d hd
    obtain ⟨hlt, rfl⟩ := digitIn_eq_some hd
    exact hc (by rw [Nat.isDigit_digitChar, decide_eq_true hlt])

/-- the number that the digits among some characters denote in decimal; the other characters do not count -/
def denoted (cs : List Char) : Nat :=
  Nat.ofDigits 10 ((cs.filter Char.isDigit).map fun c => c.toNat - '0'.toNat).reverse

/-- a decimal numeral: at most one plus, a digit, and then digits and underscores -/
def IsDecimal (cs : List Char) : Prop :=
  ∃ sign c rest, IsSign sign ∧ c.isDigit = true ∧ (∀ x ∈ rest, x.isDigit = true ∨ x = '_') ∧ cs = sign ++ c :: rest

theorem isLong_ten_iff {cs : List Char} {n : Nat} : IsLong 10 cs n ↔ IsDecimal cs ∧ n = denoted cs :=
  isLong_iff_of_digitIn digitIn_ten

end Numeral

/-! ## Writing -/

/-- a text without characters that need an escape is written as it is, between quotes -/
theorem Json.Doc.compact_text {s : String} (h : ∀ c ∈ s.toList, escapeChar c = [c]) :
    (Doc.text s).compact = "\"" ++ s ++ "\"" := by
  rw [← String.toList_inj, Doc.compact, String.toList_ofList, Doc.chars, quote, String.toList_append,
    String.toList_append, List.flatMap_congr h, List.flatMap_singleton']
  rfl

theorem escapeChar_of_mem_toString {n : Nat} {c : Char} (h : c ∈ (toString n).toList) : escapeChar c = [c] := by
  have hdigit : ∀ m : Fin 10, escapeChar (Nat.digitChar m.val) = [Nat.digitChar m.val] := by decide
  rw [Numeral.toList_toString] at h
  obtain ⟨d, hd, rfl⟩ := List.mem_map.1 h
  exact hdigit ⟨d, Numeral.lt_of_mem_decimal hd⟩

namespace Amount

/-- a written amount is its decimal numeral between quotes -/
theorem compact_toDoc (n : Nat) : (toDoc n).compact = "\"" ++ toString n ++ "\"" :=
  Doc.compact_text fun _ => escapeChar_of_mem_toString

theorem isNumeral_toString (n : Nat) : IsNumeral (toString n) false n :=
  ⟨_, Leading.decimal n, Numeral.ofDigits_decimal n, Numeral.toList_toString n⟩

theorem decode_compact_toDoc (n : Nat) : decode decoder (toDoc n).compact = .ok n := by
  have hplain : (toDoc n).Plain := .text _
  rw [decode_compact decoder hplain, decoder_toDoc]

/-! ## Reading -/

/-- the amount that a value is: an integer that is not negative, or the digits of a decimal numeral -/
inductive Denotes : Value → Nat → Prop where
  | whole {m : Whole} {n : Nat} (h : m.val = n) : Denotes (.number (.whole m)) n
  | text {s : String} (h : Numeral.IsDecimal s.toList) : Denotes (.text s) (Numeral.denoted s.toList)

theorem denotes_text_iff {s : String} {n : Nat} :
    Denotes (.text s) n ↔ Numeral.IsDecimal s.toList ∧ n = Numeral.denoted s.toList := by
  constructor
  · intro h
    cases h with
    | text h => exact ⟨h, rfl⟩
  · rintro ⟨h, rfl⟩
    exact .text h

theorem denotes_whole_iff {m : Whole} {n : Nat} : Denotes (.number (.whole m)) n ↔ m.val = n := by
  constructor
  · intro h
    cases h with
    | whole h => exact h
  · exact .whole

theorem ofValue_text_eq_ok_iff {s : String} {n : Nat} : ofValue (.text s) = .ok n ↔ Denotes (.text s) n := by
  rw [denotes_text_iff, ← Numeral.isLong_ten_iff, ← Numeral.parseLong_eq_ok_iff, ofValue, Value.textual]
  dsimp only
  cases Numeral.parseLong 10 s <;> simp

/-- nothing is read from a text that starts with a minus -/
theorem not_isDecimal_minus (cs : List Char) : ¬ Numeral.IsDecimal ('-' :: cs) := by
  rintro ⟨sign, c, rest, rfl | rfl, hc, -, heq⟩
  · rw [← (List.cons.inj heq).1] at hc
    cases hc
  · cases (List.cons.inj heq).1

theorem ofValue_whole_eq_ok_iff {m : Whole} {n : Nat} :
    ofValue (.number (.whole m)) = .ok n ↔ Denotes (.number (.whole m)) n := by
  have htext : ofValue (.number (.whole m)) = ofValue (.text (toString m.val)) := rfl
  rw [htext, denotes_whole_iff]
  cases hm : m.val with
  | ofNat k =>
    have hread : ofValue (.text (toString (Int.ofNat k))) = .ok k := by
      show ofValue (.text (toString k)) = .ok k
      simp only [ofValue, Value.textual, Numeral.parseLong_toString]
    rw [hread]
    simp
  | negSucc k =>
    have hminus := toList_toString_int (Int.negSucc k)
    rw [decide_eq_true (Int.negSucc_lt_zero k)] at hminus
    rw [ofValue_text_eq_ok_iff, denotes_text_iff, hminus]
    refine iff_of_false (fun h => not_isDecimal_minus _ h.1) ?_
    intro h
    cases h

/-- what is read as an amount is what the value denotes -/
theorem ofValue_eq_ok_iff {v : Value} (hreal : ∀ x, v ≠ .number (.real x)) {n : Nat} :
    ofValue v = .ok n ↔ Denotes v n := by
  cases v with
  | number m =>
    cases m with
    | whole m => exact ofValue_whole_eq_ok_iff
    | real x => exact absurd rfl (hreal x)
  | text s => exact ofValue_text_eq_ok_iff
  | bool b => cases b <;> exact iff_of_false nofun nofun
  | null | array | object => exact iff_of_false nofun nofun

variable {levels : Nat} {d : Doc} {v : Value}

theorem decoder_eq (hv : d.value? levels = some v) : decoder levels d = (ofValue v).mapError .shape := by
  rw [decoder, Decoder.value, hv]
  simp only [Option.elim, bind, Except.bind]
  cases ofValue v <;> rfl

theorem decoder_eq_ok_iff (hv : d.value? levels = some v) {n : Nat} :
    decoder levels d = .ok n ↔ ofValue v = .ok n := by
  rw [decoder_eq hv]
  cases ofValue v <;> simp [Except.mapError]

theorem decoder_eq_ok_iff_exists {n : Nat} :
    decoder levels d = .ok n ↔ ∃ v, d.value? levels = some v ∧ ofValue v = .ok n := by
  constructor
  · intro h
    cases hv : d.value? levels with
    | some v => exact ⟨v, rfl, (decoder_eq_ok_iff hv).1 h⟩
    | none =>
      rw [decoder, Decoder.value, hv] at h
      cases h
  · rintro ⟨v, hv, h⟩
    exact (decoder_eq_ok_iff hv).2 h

/-- **Amounts are exact.** A written amount is a canonical numeral and is read back. A value other than a real number is
read as the amount that it denotes, and not read if it denotes none. -/
theorem decoder_exact :
    (∀ n, IsNumeral (toString n) false n ∧ (toDoc n).compact = "\"" ++ toString n ++ "\"" ∧
        decode decoder (toDoc n).compact = .ok n) ∧
      ∀ levels d v, d.value? levels = some v → (∀ x, v ≠ .number (.real x)) →
        (∀ n, decoder levels d = .ok n ↔ Denotes v n) ∧
          ((∀ n, ¬ Denotes v n) → ∃ e, decoder levels d = .error (.shape e)) ∧
          Decoder.nullable decoder levels d = if v.isNull then .ok none else (decoder levels d).map some := by
  refine ⟨fun n => ⟨isNumeral_toString n, compact_toDoc n, decode_compact_toDoc n⟩, ?_⟩
  intro levels d v hv hreal
  have hread : ∀ n, decoder levels d = .ok n ↔ Denotes v n := fun n =>
    (decoder_eq_ok_iff hv).trans (ofValue_eq_ok_iff hreal)
  refine ⟨hread, ?_, Decoder.nullable_eq decoder hv⟩
  intro hnone
  rw [decoder_eq hv]
  cases h : ofValue v with
  | ok n => exact absurd ((ofValue_eq_ok_iff hreal).1 h) (hnone n)
  | error e => exact ⟨e, rfl⟩

/-- a text with a sign, a zero in front and an underscore, and a negative integer -/
theorem decoder_exact_signed :
    (Doc.text "+0_7").value? 0 = some (.text "+0_7") ∧ decoder 0 (.text "+0_7") = .ok 7 ∧
      Decoder.nullable decoder 0 (.text "+0_7") = .ok (some 7) ∧
      ∃ e, decoder 0 (.number (.whole ⟨-7, by decide, by decide⟩)) = .error (.shape e) := by
  have hrest : ∀ x ∈ ['_', '7'], x.isDigit = true ∨ x = '_' :=
    List.forall_mem_cons.2 ⟨Or.inr rfl, List.forall_mem_singleton.2 (Or.inl rfl)⟩
  have hdecimal : Numeral.IsDecimal "+0_7".toList := ⟨['+'], '0', ['_', '7'], Or.inr rfl, rfl, hrest, rfl⟩
  have hseven : Denotes (.text "+0_7") 7 := denotes_text_iff.2 ⟨hdecimal, by decide⟩
  have hnegative : ∀ n, ¬ Denotes (.number (.whole ⟨-7, by decide, by decide⟩)) n := by
    intro n hn
    have hval : (-7 : Int) = n := denotes_whole_iff.1 hn
    omega
  obtain ⟨hread, -, hnullable⟩ := decoder_exact.2 0 (.text "+0_7") (.text "+0_7") rfl nofun
  obtain ⟨-, hrefused, -⟩ := decoder_exact.2 0 (.number (.whole ⟨-7, by decide, by decide⟩)) _ rfl nofun
  have hok := (hread 7).2 hseven
  rw [hok] at hnullable
  exact ⟨rfl, hok, hnullable, hrefused hnegative⟩

end Amount

end ReplicatedOrders
