/-
Bounded numerals: which texts are a decimal numeral below a limit, and the number that each denotes.

The reader stops at the first digit that takes it beyond the limit. `IsBounded` says what it accepts without saying how
it reads: at most one plus and then digits, with as many zeros in front as one likes, and the number of the digits lies
below the limit.
- `readBounded_eq_ok_iff`: digits that go on after a number.
- `parseBounded_eq_ok_iff`: the reader accepts these texts and no other.
- `readBounded_eq_error_iff`, `parseBounded_eq_error_iff`: the character at which any other text is refused, and why.
-/
import ReplicatedOrders.Proofs.Amounts

namespace ReplicatedOrders.Numeral

variable {limit : Nat}

/-! ## Digits -/

theorem isSome_digitIn_ten (c : Char) : (digitIn 10 c).isSome = c.isDigit := by
  rw [digitIn_ten]
  cases c.isDigit <;> rfl

/-- the number that decimal digits after the number `v` denote together with it; other characters do not count -/
def continued (v : Nat) (cs : List Char) : Nat := (cs.filterMap (digitIn 10)).foldl (fun v d => 10 * v + d) v

theorem continued_cons {c : Char} {d : Nat} (h : digitIn 10 c = some d) (v : Nat) (cs : List Char) :
    continued v (c :: cs) = continued (10 * v + d) cs := by
  rw [continued, List.filterMap_cons_some h, List.foldl_cons, continued]

theorem continued_zero (cs : List Char) : continued 0 cs = denoted cs := by
  rw [denoted, ← filterMap_digitIn digitIn_ten, ← ofDigits_eq]
  rfl

/-- digits only make a number larger, so a number that grew too large stays so -/
theorem readBounded_eq_ok_iff {v n : Nat} (hv : v < limit) {cs : List Char} :
    readBounded limit v cs = .ok n ↔ (∀ c ∈ cs, c.isDigit = true) ∧ n = continued v cs ∧ n < limit := by
  induction cs generalizing v with
  | nil =>
    rw [readBounded, Except.ok.injEq]
    constructor
    · rintro rfl
      exact ⟨List.forall_mem_nil _, rfl, hv⟩
    · rintro ⟨-, rfl, -⟩
      rfl
  | cons c cs ih =>
    rw [readBounded, List.forall_mem_cons, ← isSome_digitIn_ten]
    cases hd : digitIn 10 c with
    | none => exact iff_of_false (fun h => by cases h) (fun h => Bool.false_ne_true h.1.1)
    | some d =>
      rw [continued_cons hd]
      dsimp only
      by_cases hlt : 10 * v + d < limit
      · rw [if_pos hlt, ih hlt]
        exact ⟨fun h => ⟨⟨rfl, h.1⟩, h.2⟩, fun h => ⟨h.1.2, h.2⟩⟩
      · rw [if_neg hlt]
        refine iff_of_false (fun h => by cases h) ?_
        rintro ⟨-, rfl, hn⟩
        exact hlt (Nat.lt_of_le_of_lt (le_foldl_digits _ _) hn)

/-! ## Numerals -/

/-- a decimal numeral below a limit, and the number that it denotes -/
def IsBounded (limit : Nat) (cs : List Char) (n : Nat) : Prop :=
  ∃ sign digits, IsSign sign ∧ digits ≠ [] ∧ (∀ c ∈ digits, c.isDigit = true) ∧ cs = sign ++ digits ∧
    n = denoted digits ∧ n < limit

/-- **The texts that are read as a numeral below a limit,** and what they are read as. -/
theorem parseBounded_eq_ok_iff (hlimit : 0 < limit) {text : String} {n : Nat} :
    parseBounded limit text = .ok n ↔ IsBounded limit text.toList n := by
  unfold parseBounded
  generalize text.toList = cs
  constructor
  · intro h
    split at h
    · cases h
    · next c cs =>
      obtain ⟨hdigits, hn, hlt⟩ := (readBounded_eq_ok_iff hlimit).1 h
      rw [continued_zero] at hn
      exact ⟨['+'], c :: cs, Or.inr rfl, List.cons_ne_nil c cs, hdigits, rfl, hn, hlt⟩
    · next hempty _ =>
      obtain ⟨hdigits, hn, hlt⟩ := (readBounded_eq_ok_iff hlimit).1 h
      rw [continued_zero] at hn
      exact ⟨[], cs, Or.inl rfl, hempty, hdigits, rfl, hn, hlt⟩
  · rintro ⟨sign, digits, hsign, hne, hdigits, rfl, rfl, hlt⟩
    obtain ⟨c, cs, rfl⟩ := List.exists_cons_of_ne_nil hne
    have hread : readBounded limit 0 (c :: cs) = .ok (denoted (c :: cs)) :=
      (readBounded_eq_ok_iff hlimit).2 ⟨hdigits, (continued_zero _).symm, hlt⟩
    rcases hsign with rfl | rfl
    · have hplus : c ≠ '+' := by
        rintro rfl
        cases hdigits '+' List.mem_cons_self
      rw [List.nil_append]
      split
      · next h => cases h
      · next h => exact absurd (List.cons.inj h).1 hplus
      · exact hread
    · exact hread

/-- a minus is no part of a numeral -/
theorem IsBounded.minus_not_mem {cs : List Char} {n : Nat} (h : IsBounded limit cs n) : '-' ∉ cs := by
  obtain ⟨sign, digits, hsign, -, hdigits, rfl, -, -⟩ := h
  rw [List.mem_append, not_or]
  constructor
  · rcases hsign with rfl | rfl
    · exact nofun
    · decide
  · intro hmem
    cases hdigits '-' hmem

/-! ## Refusals -/

/-- why a character is refused after digits that denote a number: it is no digit, or the number grows too large -/
inductive Halts (limit : Nat) (taken : Nat) (c : Char) : NumeralError → Prop where
  | invalidDigit (h : c.isDigit = false) : Halts limit taken c .invalidDigit
  | tooLarge {d : Nat} (h : digitIn 10 c = some d) (hgrown : limit ≤ 10 * taken + d) : Halts limit taken c .tooLarge

/-- digits are taken after the number `v`, up to a character that is refused -/
def HaltsIn (limit v : Nat) (cs : List Char) (e : NumeralError) : Prop :=
  ∃ digits c rest, cs = digits ++ c :: rest ∧ (∀ d ∈ digits, d.isDigit = true) ∧ continued v digits < limit ∧
    Halts limit (continued v digits) c e

variable {v : Nat} {c : Char} {cs : List Char} {e : NumeralError}

theorem haltsIn_cons_iff (hv : v < limit) :
    HaltsIn limit v (c :: cs) e ↔ Halts limit v c e ∨ ∃ d, digitIn 10 c = some d ∧ HaltsIn limit (10 * v + d) cs e := by
  constructor
  · rintro ⟨digits, c', rest, hcs, hdigits, hlt, hhalts⟩
    cases digits with
    | nil =>
      obtain ⟨rfl, -⟩ := List.cons.inj hcs
      exact Or.inl hhalts
    | cons d digits =>
      obtain ⟨rfl, rfl⟩ := List.cons.inj hcs
      obtain ⟨hd, hdigits⟩ := List.forall_mem_cons.1 hdigits
      obtain ⟨n, hn⟩ := Option.isSome_iff_exists.1 ((isSome_digitIn_ten c).trans hd)
      rw [continued_cons hn] at hlt hhalts
      exact Or.inr ⟨n, hn, digits, c', rest, rfl, hdigits, hlt, hhalts⟩
  · rintro (hhalts | ⟨n, hn, digits, c', rest, rfl, hdigits, hlt, hhalts⟩)
    · exact ⟨[], c, cs, rfl, nofun, hv, hhalts⟩
    · have hc : c.isDigit = true := by rw [← isSome_digitIn_ten, hn, Option.isSome_some]
      rw [← continued_cons hn] at hlt hhalts
      exact ⟨c :: digits, c', rest, rfl, List.forall_mem_cons.2 ⟨hc, hdigits⟩, hlt, hhalts⟩

theorem halts_of_none (hc : digitIn 10 c = none) : Halts limit v c e ↔ e = .invalidDigit := by
  have hdigit : c.isDigit = false := by rw [← isSome_digitIn_ten, hc, Option.isSome_none]
  constructor
  · rintro (- | ⟨h, -⟩)
    · rfl
    · rw [hc] at h
      cases h
  · rintro rfl
    exact .invalidDigit hdigit

theorem halts_of_some {d : Nat} (hc : digitIn 10 c = some d) :
    Halts limit v c e ↔ e = .tooLarge ∧ limit ≤ 10 * v + d := by
  constructor
  · rintro (h | ⟨h, hgrown⟩)
    · rw [← isSome_digitIn_ten, hc] at h
      cases h
    · obtain rfl := Option.some.inj (hc.symm.trans h)
      exact ⟨rfl, hgrown⟩
  · rintro ⟨rfl, hgrown⟩
    exact .tooLarge hc hgrown

theorem readBounded_eq_error_iff (hv : v < limit) : readBounded limit v cs = .error e ↔ HaltsIn limit v cs e := by
  induction cs generalizing v with
  | nil =>
    refine iff_of_false nofun ?_
    rintro ⟨digits, c, rest, hcs, -⟩
    simp at hcs
  | cons c cs ih =>
    rw [readBounded, haltsIn_cons_iff hv]
    cases hc : digitIn 10 c with
    | none => simp [halts_of_none hc, eq_comm]
    | some d =>
      rw [halts_of_some hc]
      by_cases hlt : 10 * v + d < limit
      · have hgoes : ¬ limit ≤ 10 * v + d := Nat.not_le.2 hlt
        simp [hlt, hgoes, ih hlt]
      · have hnever : ¬ HaltsIn limit (10 * v + d) cs e := by
          rintro ⟨digits, c', rest, -, -, htaken, -⟩
          exact hlt (Nat.lt_of_le_of_lt (le_foldl_digits _ _) htaken)
        simp [hlt, Nat.le_of_not_lt hlt, hnever, eq_comm]

/-- the digits that are looked at: those after a plus, or the whole text where nothing stands after a plus -/
inductive Unsigned : List Char → List Char → Prop where
  | plus (c : Char) (cs : List Char) : Unsigned ('+' :: c :: cs) (c :: cs)
  | none {cs : List Char} (h : ∀ c rest, cs ≠ '+' :: c :: rest) : Unsigned cs cs

/-- why a text is no numeral: it is empty, or one of its characters is refused -/
inductive Refused (limit : Nat) (cs : List Char) : NumeralError → Prop where
  | empty (h : cs = []) : Refused limit cs .empty
  | halts {digits : List Char} {e : NumeralError} (h : Unsigned cs digits) (hhalts : HaltsIn limit 0 digits e) :
    Refused limit cs e

/-- **Every other text is refused,** at the first character that is no digit or takes the number beyond the limit. -/
theorem parseBounded_eq_error_iff (hlimit : 0 < limit) {text : String} :
    parseBounded limit text = .error e ↔ Refused limit text.toList e := by
  unfold parseBounded
  generalize text.toList = cs
  split
  · constructor
    · rintro ⟨⟩
      exact .empty rfl
    · rintro (- | ⟨⟨-⟩, digits, c, rest, hcs, -⟩)
      · rfl
      · simp at hcs
  · next c cs =>
    rw [readBounded_eq_error_iff hlimit]
    constructor
    · exact .halts (.plus c cs)
    · rintro (h | ⟨hunsigned, hhalts⟩)
      · cases h
      · cases hunsigned with
        | plus c cs => exact hhalts
        | none h => exact absurd rfl (h c cs)
  · next hempty hplus =>
    rw [readBounded_eq_error_iff hlimit]
    constructor
    · exact .halts (.none fun c rest h => hplus c rest h)
    · rintro (h | ⟨hunsigned, hhalts⟩)
      · exact absurd h hempty
      · cases hunsigned with
        | plus c cs => exact absurd rfl (hplus c cs)
        | none h => exact hhalts

end ReplicatedOrders.Numeral
