/-
Integers in payloads: what normalization makes of an integer literal.

A literal that fits 64 bits is a whole number and keeps its digits. A longer one becomes a binary64 number: as many
leading digits as fit 64 bits are rounded to 53 bits and multiplied by a power of ten, which is rounded as well, and the
product is rounded once more. What is stored is the result of that, written with all its digits.
- `Literal.takeWhole_decimal`: how many digits are dropped.
- `Literal.digits_integer`: the digits of every integer literal.
- `dvd_kept`: a literal with more than 64 bits is stored as a multiple of 2048.
- `Update.decode_congr`: an update depends on the normal form of its payload only.
- `normalize_integer`: so this is what happens to an integer literal anywhere in a payload.
-/
import ReplicatedOrders.Proofs.Json.Normal
import ReplicatedOrders.Proofs.Rounding
import ReplicatedOrders.Update

namespace ReplicatedOrders

open Json

/-! ## Digits that are dropped -/

/-- so many digits at the end of a number have to go before it fits 64 bits -/
def droppedDigits (n : Nat) : Nat := if n < UInt64.size then 0 else droppedDigits (n / 10) + 1
decreasing_by
  have : 0 < UInt64.size := by decide
  omega

theorem droppedDigits_of_lt {n : Nat} (h : n < UInt64.size) : droppedDigits n = 0 := by
  rw [droppedDigits, if_pos h]

theorem droppedDigits_of_le {n : Nat} (h : UInt64.size ≤ n) : droppedDigits n = droppedDigits (n / 10) + 1 := by
  rw [droppedDigits, if_neg (by omega)]

namespace Json.Literal

/-- one more digit is taken if none was dropped and the number still fits -/
theorem takeWhole_snoc (s : Nat) (ds : List Nat) (d : Nat) :
    takeWhole s (ds ++ [d]) =
      if (takeWhole s ds).2 = 0 ∧ 10 * (takeWhole s ds).1 + d < UInt64.size then (10 * (takeWhole s ds).1 + d, 0)
      else ((takeWhole s ds).1, (takeWhole s ds).2 + 1) := by
  induction ds generalizing s with
  | nil => simp [takeWhole]
  | cons d' ds ih =>
    rw [List.cons_append, takeWhole, takeWhole]
    split
    · exact ih _
    · have hpos : ¬ ((ds.length : Int) + 1 = 0) := by omega
      simp [hpos]

/-- the digits of a number: those that fit are taken, the others are counted -/
theorem takeWhole_decimal (n : Nat) :
    takeWhole 0 (Numeral.decimal n) = (n / 10 ^ droppedDigits n, (droppedDigits n : Int)) := by
  induction n using Nat.strongRecOn with
  | ind n ih =>
    by_cases hn : n < 10
    · have hfits : n < UInt64.size := Nat.lt_trans hn (by decide)
      have htaken : 10 * 0 + n < UInt64.size := by omega
      rw [Numeral.decimal_of_lt hn, droppedDigits_of_lt hfits, takeWhole, if_pos htaken, takeWhole]
      simp
    · rw [Numeral.decimal_of_le (by omega), takeWhole_snoc, ih (n / 10) (by omega)]
      by_cases hfits : n < UInt64.size
      · have htaken : 10 * (n / 10) + n % 10 = n := Nat.div_add_mod n 10
        rw [droppedDigits_of_lt hfits, droppedDigits_of_lt (show n / 10 < UInt64.size by omega)]
        simp [htaken, hfits]
      · rw [droppedDigits_of_le (Nat.not_lt.1 hfits)]
        have hdropped : ¬ ((droppedDigits (n / 10) : Int) = 0 ∧
            10 * (n / 10 / 10 ^ droppedDigits (n / 10)) + n % 10 < UInt64.size) := by
          rintro ⟨hzero, hlt⟩
          rw [Int.natCast_eq_zero.1 hzero, Nat.pow_zero, Nat.div_one] at hlt
          omega
        rw [if_neg hdropped, Nat.div_div_eq_div_mul, ← Nat.pow_succ']
        rfl

end Json.Literal

/-! ## Integer literals -/

/-- digits with nothing needless in front are the digits of their number -/
theorem Json.Leading.eq_decimal {ds : List Nat} (h : Leading ds) : ds = Numeral.decimal (Numeral.ofDigits 10 ds) := by
  induction ds using List.reverseRecOn with
  | nil => exact absurd rfl h.ne
  | append_singleton ds d ih =>
    have hd : d < 10 := h.lt d (by simp)
    have hvalue : Numeral.ofDigits 10 (ds ++ [d]) = 10 * Numeral.ofDigits 10 ds + d := by
      simp [Numeral.ofDigits, List.foldl_append]
    cases ds with
    | nil =>
      have hone : Numeral.ofDigits 10 ([] ++ [d]) = d := by simp [Numeral.ofDigits]
      rw [hone, Numeral.decimal_of_lt hd, List.nil_append]
    | cons first tail =>
      have hfirst : first ≠ 0 := by
        rintro rfl
        exact absurd (h.head _ rfl) (by simp)
      have hleading : Leading (first :: tail) :=
        ⟨by simp, fun x hx => h.lt x (List.mem_append_left _ hx), fun _ heq => absurd (List.cons.inj heq).1 hfirst⟩
      have hpos : first ≤ Numeral.ofDigits 10 (first :: tail) := by
        simpa [Numeral.ofDigits] using Numeral.le_foldl_digits first tail
      have hquotient : (10 * Numeral.ofDigits 10 (first :: tail) + d) / 10 = Numeral.ofDigits 10 (first :: tail) := by
        omega
      have hremainder : (10 * Numeral.ofDigits 10 (first :: tail) + d) % 10 = d := by omega
      rw [hvalue, Numeral.decimal_of_le (by omega), hquotient, hremainder, ← ih hleading]

/-- so many of an integer's digits are given: it fits 64 bits, unsigned or signed -/
def Fits64 (negative : Bool) (n : Nat) : Prop := n < 2 ^ 64 ∧ (negative = true → n ≤ 2 ^ 63)

instance (negative : Bool) (n : Nat) : Decidable (Fits64 negative n) := inferInstanceAs (Decidable (_ ∧ _))

/-- the magnitude that is stored for an integer -/
def kept (negative : Bool) (n : Nat) : Nat :=
  if Fits64 negative n then n
  else Binary64.nearest53 (Binary64.nearest53 (n / 10 ^ droppedDigits n) * Binary64.nearest53 (10 ^ droppedDigits n))

namespace Json.Literal

/-- the literal of an integer -/
def integer (negative : Bool) (n : Nat) : Literal := ⟨negative, Numeral.decimal n, [], none⟩

theorem whole?_integer (negative : Bool) (n : Nat) :
    (integer negative n).whole? =
      if negative then if n = 0 then none else Number.ofInt? (-n) else Number.ofInt? n := by
  simp only [whole?, integer, Numeral.ofDigits_decimal]

theorem significand_integer (negative : Bool) (n : Nat) :
    (integer negative n).significand = (n / 10 ^ droppedDigits n, (droppedDigits n : Int)) := by
  simp only [significand, integer, takeWhole_decimal, takeFraction]

/-- an integer that is read as a whole number fits, and keeps its digits -/
theorem whole_integer {negative : Bool} {n : Nat} {m : Number} (h : (integer negative n).whole? = some m) :
    Fits64 negative n ∧ m.digits = (if negative then "-" else "") ++ toString n := by
  have hofInt : ∀ i, Number.ofInt? i = some m →
      (-9223372036854775808 ≤ i ∧ i < 18446744073709551616) ∧ m.digits = toString i := by
    intro i hi
    unfold Number.ofInt? at hi
    split at hi
    · next hbounds =>
      cases hi
      exact ⟨hbounds, rfl⟩
    · cases hi
  rw [whole?_integer] at h
  cases negative with
  | false =>
    rw [if_neg Bool.false_ne_true] at h
    obtain ⟨hbounds, hdigits⟩ := hofInt n h
    exact ⟨⟨by omega, fun heq => absurd heq Bool.false_ne_true⟩, hdigits.trans String.empty_append.symm⟩
  | true =>
    rw [if_pos rfl] at h
    split at h
    · cases h
    · next hn =>
      obtain ⟨hbounds, hdigits⟩ := hofInt _ h
      obtain ⟨k, rfl⟩ := Nat.exists_eq_succ_of_ne_zero hn
      exact ⟨⟨by omega, fun _ => by omega⟩, hdigits⟩

/-- an integer that is not read as a whole number does not fit, or is minus zero -/
theorem not_fits_integer {negative : Bool} {n : Nat} (h : (integer negative n).whole? = none) :
    ¬ Fits64 negative n ∨ n = 0 := by
  have hofInt : ∀ i, Number.ofInt? i = none → ¬ (-9223372036854775808 ≤ i ∧ i < 18446744073709551616) := by
    intro i hi hbounds
    rw [Number.ofInt?, dif_pos hbounds] at hi
    cases hi
  rw [whole?_integer] at h
  cases negative with
  | false =>
    rw [if_neg Bool.false_ne_true] at h
    have hout := hofInt n h
    exact Or.inl fun hfits => hout ⟨by omega, by have := hfits.1; omega⟩
  | true =>
    rw [if_pos rfl] at h
    split at h
    · next hn => exact Or.inr hn
    · have hout := hofInt _ h
      exact Or.inl fun hfits => hout ⟨by have := hfits.2 rfl; omega, by omega⟩

/-- the digits that normalization gives an integer -/
theorem digits_integer {negative : Bool} {n : Nat} {m : Number} (h : (integer negative n).number? = some m) :
    m.digits = (if negative then "-" else "") ++ toString (kept negative n) := by
  cases hw : (integer negative n).whole? with
  | some m' =>
    have hm : (integer negative n).number? = some m' := by simp only [number?, integer] at hw ⊢; rw [hw]
    rw [h, Option.some.injEq] at hm
    subst hm
    obtain ⟨hfits, hdigits⟩ := whole_integer hw
    rw [kept, if_pos hfits, hdigits]
  | none =>
    have hm : (integer negative n).number? = (integer negative n).real?.map .real := by
      simp only [number?, integer] at hw ⊢
      rw [hw]
    rw [h] at hm
    obtain ⟨x, hx, rfl⟩ := Option.map_eq_some_iff.1 hm.symm
    simp only [real?, significand_integer] at hx
    obtain ⟨hsign, hwhole⟩ := Binary64.ofDecimal_whole hx
    have hkept : kept negative n = Binary64.nearest53
        (Binary64.nearest53 (n / 10 ^ droppedDigits n) * Binary64.nearest53 (10 ^ droppedDigits n)) := by
      rcases not_fits_integer hw with hfits | rfl
      · rw [kept, if_neg hfits]
      · have hfits : Fits64 negative 0 := ⟨by decide, fun _ => by decide⟩
        have hzero : Binary64.nearest53 0 = 0 := Binary64.nearest53_of_lt (by decide)
        rw [kept, if_pos hfits, Nat.zero_div, hzero, Nat.zero_mul, hzero]
    rw [Number.digits, Binary64.wholeText, hwhole.nearestWhole, hsign, hkept]
    rfl

/-- a sign and digits, without fraction and exponent -/
structure IsInteger (l : Literal) : Prop where
  wellFormed : l.WellFormed
  fraction : l.fraction = []
  exponent : l.exponent = none

def magnitude (l : Literal) : Nat := Numeral.ofDigits 10 l.whole

/-- the literal as it stands in a payload -/
def text (l : Literal) : String := String.ofList (l.chars false)

/-- what normalization makes of an integer literal -/
def rendered (l : Literal) : String := (if l.negative then "-" else "") ++ toString (kept l.negative l.magnitude)

theorem IsInteger.eq_integer {l : Literal} (hl : l.IsInteger) : l = integer l.negative l.magnitude := by
  obtain ⟨hw, hf, he⟩ := hl
  obtain ⟨negative, whole, fraction, exponent⟩ := l
  obtain rfl : fraction = [] := hf
  obtain rfl : exponent = none := he
  exact congrArg (fun ds => (⟨negative, ds, [], none⟩ : Literal)) hw.whole.eq_decimal

theorem text_integer (negative : Bool) (n : Nat) :
    (integer negative n).text = (if negative then "-" else "") ++ toString n := by
  rw [text, integer, chars, ← String.toList_inj, String.toList_ofList, String.toList_append, Numeral.toList_toString]
  cases negative <;> simp [signChars, fractionChars, exponentChars]

end Json.Literal

/-! ## Which integers survive -/

/-- the digits that are taken of a number with more than 64 bits -/
theorem two_pow_le_taken {n : Nat} (h : UInt64.size ≤ n) : 2 ^ 60 ≤ n / 10 ^ droppedDigits n ∧ 1 ≤ droppedDigits n := by
  induction n using Nat.strongRecOn with
  | ind n ih =>
    have hsize : UInt64.size = 2 ^ 64 := rfl
    have hpower : 10 ^ (droppedDigits (n / 10) + 1) = 10 * 10 ^ droppedDigits (n / 10) := Nat.pow_succ'
    rw [droppedDigits_of_le h, hpower, ← Nat.div_div_eq_div_mul]
    refine ⟨?_, by omega⟩
    by_cases hq : n / 10 < UInt64.size
    · rw [droppedDigits_of_lt hq, Nat.pow_zero, Nat.div_one]
      omega
    · exact (ih (n / 10) (by omega) (Nat.not_lt.1 hq)).1

/-- **A literal with more than 64 bits is stored as a multiple of 2048.** -/
theorem dvd_kept {negative : Bool} {n : Nat} (h : ¬ Fits64 negative n) : 2048 ∣ kept negative n := by
  have hproduct : 2 ^ 63 ≤
      Binary64.nearest53 (n / 10 ^ droppedDigits n) * Binary64.nearest53 (10 ^ droppedDigits n) := by
    by_cases hn : n < UInt64.size
    · have hlarge : 2 ^ 63 ≤ n := by
        unfold Fits64 at h
        have hsize : UInt64.size = 2 ^ 64 := rfl
        by_contra hsmall
        exact h ⟨by omega, fun _ => by omega⟩
      have hone : Binary64.nearest53 1 = 1 := Binary64.nearest53_of_lt (by decide)
      rw [droppedDigits_of_lt hn, Nat.pow_zero, Nat.div_one, hone, Nat.mul_one]
      exact Binary64.two_pow_le_nearest53 hlarge
    · obtain ⟨htaken, hdropped⟩ := two_pow_le_taken (Nat.not_lt.1 hn)
      have hten : 2 ^ 3 ≤ 10 ^ droppedDigits n :=
        (show 2 ^ 3 ≤ 10 ^ 1 by decide).trans (Nat.pow_le_pow_right (by omega) hdropped)
      have hsplit : 2 ^ 63 = 2 ^ 60 * 2 ^ 3 := rfl
      rw [hsplit]
      exact Nat.mul_le_mul (Binary64.two_pow_le_nearest53 htaken) (Binary64.two_pow_le_nearest53 hten)
  rw [kept, if_neg h]
  generalize Binary64.nearest53 (n / _) * _ = m at hproduct ⊢
  have hlog : 63 ≤ Nat.log2 m := (Nat.le_log2 (by omega)).2 hproduct
  exact (Nat.pow_dvd_pow 2 (show 11 ≤ Nat.log2 m - 52 by omega)).trans (Binary64.dvd_nearest53 m)

/-- an integer literal survives exactly if its magnitude does -/
theorem Json.Literal.rendered_eq_text_iff {l : Literal} (hl : l.IsInteger) :
    l.rendered = l.text ↔ kept l.negative l.magnitude = l.magnitude := by
  have htext : l.text = (if l.negative then "-" else "") ++ toString l.magnitude := by
    rw [← text_integer, ← hl.eq_integer]
  rw [rendered, htext, String.append_right_inj]
  exact ⟨Numeral.toString_injective, congrArg toString⟩

/-! ## Updates -/

namespace Update

/-- a leaf is read from its normal form -/
theorem leaf_eq (ms : Members) (f : UpdateField) :
    leaf ms f =
      match Members.get? (Value.textualMembers ms) f.name with
      | none | some .null => .ok none
      | some (.text s) => .ok (some s)
      | some _ => .error (.invalidField f) := by
  rw [Members.get?_textualMembers, leaf]
  cases ms.get? f.name with
  | none => rfl
  | some v => cases v <;> rfl

theorem ofMembers_congr {ms ms' : Members} (h : Value.textualMembers ms = Value.textualMembers ms') :
    ofMembers ms = ofMembers ms' := by
  have hleaf : ∀ f, leaf ms f = leaf ms' f := fun f => by rw [leaf_eq, leaf_eq, h]
  simp only [ofMembers, hleaf, ← Members.get?_textualMembers, h]

/-- **An update depends on the normal form of its payload only.** -/
theorem decode_congr {payload payload' : String} {v v' : Value} (hv : parse? payload = some v)
    (hv' : parse? payload' = some v') (h : v.textual = v'.textual) : decode payload = decode payload' := by
  have hok : ∀ {t : String} {w : Value}, parse? t = some w → Json.decode Decoder.value t = .ok w := by
    intro t w ht
    unfold parse? at ht
    split at ht
    · next heq => rw [heq, Option.some.inj ht]
    · cases ht
  have hdecode : ∀ {t : String} {w : Value}, parse? t = some w →
      decode t = w.members?.elim (.error .notAnObject) ofMembers := by
    intro t w ht
    rw [decode, hok ht]
    cases w <;> rfl
  have hmembers : ∀ w : Value, w.textual.members? = w.members?.map Value.textualMembers := by
    intro w
    cases w <;> rfl
  have hsame := congrArg Value.members? h
  rw [hmembers, hmembers] at hsame
  rw [hdecode hv, hdecode hv']
  cases hms : v.members? with
  | none =>
    rw [hms, Option.map_none] at hsame
    rw [Option.map_eq_none_iff.1 hsame.symm]
  | some ms =>
    rw [hms, Option.map_some] at hsame
    obtain ⟨ms', hms', hnormal⟩ := Option.map_eq_some_iff.1 hsame.symm
    rw [hms']
    exact ofMembers_congr hnormal.symm

end Update

/-! ## Integers anywhere in a payload -/

/-- **What normalization makes of an integer literal.** The literal stands between tokens of a payload that is read. In
the normal form its leaf is the string `rendered`, and an update that carries it is the one that carries this string.
The string is the literal itself exactly if the rounded magnitude is the magnitude: always where the literal fits 64
bits, and beyond them at most for multiples of 2048. -/
theorem normalize_integer {l : Literal} (hl : l.IsInteger) (hread : l.number?.isSome = true) {pre post : String}
    (hpre : Between pre) (hpost : Stops post.toList) {v : Value} (hv : parse? (pre ++ l.text ++ post) = some v) :
    (∃ v', parse? (pre ++ String.ofList (quote l.rendered) ++ post) = some v' ∧ v'.textual = v.textual) ∧
      Update.decode (pre ++ l.text ++ post) = Update.decode (pre ++ String.ofList (quote l.rendered) ++ post) ∧
      (l.rendered = l.text ↔ kept l.negative l.magnitude = l.magnitude) ∧
      (Fits64 l.negative l.magnitude → l.rendered = l.text) ∧
      (¬ Fits64 l.negative l.magnitude → l.rendered = l.text → 2048 ∣ l.magnitude) := by
  obtain ⟨n, hn⟩ := Option.isSome_iff_exists.1 hread
  have hdigits : n.digits = l.rendered := by
    rw [hl.eq_integer] at hn
    exact Literal.digits_integer hn
  obtain ⟨v', hv', htextual⟩ := parse?_substitute hpre hpost hl.wellFormed false hn hv
  rw [hdigits] at hv'
  have hiff := Literal.rendered_eq_text_iff hl
  refine ⟨⟨v', hv', htextual⟩, Update.decode_congr hv hv' htextual.symm, hiff, ?_, ?_⟩
  · intro hfits
    exact hiff.2 (if_pos hfits)
  · intro hfits hsame
    rw [← hiff.1 hsame]
    exact dvd_kept hfits

/-- the first integer after two to the power of 64, as off-chain data, becomes that power -/
theorem normalize_integer_altered :
    let l := Literal.integer false 18446744073709551617
    let pre := "\x7b\"orderHash\":\"a\",\"offChainData\":"
    l.text = "18446744073709551617" ∧ l.rendered = "18446744073709551616" ∧
      Update.decode (pre ++ l.text ++ "\x7d") = Update.decode (pre ++ String.ofList (quote l.rendered) ++ "\x7d") := by
  intro l pre
  have hl : l.IsInteger := ⟨(Leading.decimal _).wellFormed _, rfl, rfl⟩
  have hpost : Stops "\x7d".toList := by
    intro c cs h
    obtain ⟨rfl, -⟩ := List.cons.inj h
    exact ⟨by decide, by decide, by decide, by decide⟩
  have hparsed : (parse? (pre ++ l.text ++ "\x7d")).isSome = true := by decide +kernel
  obtain ⟨v, hv⟩ := Option.isSome_iff_exists.1 hparsed
  have hpre : (scanOver .gap pre.toList).2 = .gap := by decide +kernel
  have hread : l.number?.isSome = true := by decide +kernel
  obtain ⟨-, hdecode, -, -, -⟩ := normalize_integer hl hread hpre hpost hv
  exact ⟨by decide +kernel, by decide +kernel, hdecode⟩

end ReplicatedOrders
