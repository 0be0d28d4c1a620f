/-
Numerals of any length: which texts are one, and the number that each denotes.

The reader looks at a text from left to right. `IsLong` says what it accepts without saying how it reads: at most one
sign, then a digit, and then digits and underscores; the number is that of the digits, with the underscores dropped.
- `ofDigits_eq`: digits in written order and digits by rising powers denote the same number.
- `longDigits_eq_some_iff`, `dropPlus_append`: the two parts of the reader.
- `parseLong_eq_ok_iff`: the reader accepts these texts and no other.
- `isLong_iff_of_digitIn`: numerals by the characters of their base.
-/
import ReplicatedOrders.Proofs.Decimal

namespace ReplicatedOrders.Numeral

variable {base : Nat}

/-! ## Digits -/

/-- digits in written order, as the positional sum of the digits by rising powers -/
theorem ofDigits_eq (base : Nat) (ds : List Nat) : ofDigits base ds = Nat.ofDigits base ds.reverse := by
  rw [ofDigits, Nat.ofDigits_eq_foldr, List.foldr_reverse]
  congr 1
  funext v d
  exact Nat.add_comm _ _

theorem digitIn_underscore (base : Nat) : digitIn base '_' = none := rfl

/-- what may stand after the first digit -/
def Continues (base : Nat) (cs : List Char) : Prop := ∀ c ∈ cs, c = '_' ∨ (digitIn base c).isSome = true

theorem longDigits_eq_some_iff {cs : List Char} {ds : List Nat} :
    longDigits base cs = some ds ↔ Continues base cs ∧ ds = cs.filterMap (digitIn base) := by
  induction cs generalizing ds with
  | nil =>
    have hnil : Continues base [] := nofun
    rw [longDigits, Option.some.injEq, List.filterMap_nil]
    exact ⟨fun h => ⟨hnil, h.symm⟩, fun h => h.2.symm⟩
  | cons c cs ih =>
    have hcons : Continues base (c :: cs) ↔ (c = '_' ∨ (digitIn base c).isSome = true) ∧ Continues base cs :=
      List.forall_mem_cons
    rw [hcons, longDigits]
    by_cases hc : c = '_'
    · subst hc
      rw [if_pos rfl, ih, List.filterMap_cons_none (digitIn_underscore base)]
      simp
    · rw [if_neg hc]
      cases hd : digitIn base c with
      | none => simp [hc]
      | some d =>
        rw [List.filterMap_cons_some hd, Option.map_eq_some_iff]
        constructor
        · rintro ⟨rest, hrest, rfl⟩
          obtain ⟨hcs, rfl⟩ := ih.1 hrest
          exact ⟨⟨Or.inr rfl, hcs⟩, rfl⟩
        · rintro ⟨⟨-, hcs⟩, rfl⟩
          exact ⟨_, ih.2 ⟨hcs, rfl⟩, rfl⟩

/-! ## The sign -/

/-- nothing, or one plus -/
def IsSign (cs : List Char) : Prop := cs = [] ∨ cs = ['+']

theorem exists_sign (cs : List Char) : ∃ sign, IsSign sign ∧ cs = sign ++ dropPlus cs := by
  unfold dropPlus
  split
  · exact ⟨[], Or.inl rfl, rfl⟩
  · exact ⟨['+'], Or.inr rfl, rfl⟩
  · exact ⟨[], Or.inl rfl, rfl⟩

theorem dropPlus_append {sign cs : List Char} {c : Char} (hsign : IsSign sign) (hc : c ≠ '+') :
    dropPlus (sign ++ c :: cs) = c :: cs := by
  rcases hsign with rfl | rfl
  · rw [List.nil_append, dropPlus.eq_3]
    · intro cs' h
      exact hc (List.cons.inj h).1
    · intro cs' h
      exact hc (List.cons.inj h).1
  · rw [List.singleton_append, dropPlus.eq_2]
    intro cs' h
    exact hc (List.cons.inj h).1

/-! ## Numerals -/

/-- a numeral of any length, and the number that its digits denote -/
def IsLong (base : Nat) (cs : List Char) (n : Nat) : Prop :=
  ∃ sign c rest, IsSign sign ∧ (digitIn base c).isSome = true ∧ Continues base rest ∧ cs = sign ++ c :: rest ∧
    n = Nat.ofDigits base ((c :: rest).filterMap (digitIn base)).reverse

/-- **The texts that are read as a numeral,** and what they are read as. -/
theorem parseLong_eq_ok_iff {text : String} {n : Nat} :
    parseLong base text = .ok n ↔ IsLong base text.toList n := by
  unfold parseLong
  generalize text.toList = cs
  constructor
  · intro h
    obtain ⟨sign, hsign, hcs⟩ := exists_sign cs
    generalize dropPlus cs = digits at h hcs
    split at h
    · cases h
    · cases h
    · next hempty hunder =>
      cases hds : longDigits base digits with
      | none =>
        rw [hds] at h
        cases h
      | some ds =>
        rw [hds] at h
        obtain ⟨hcontinues, rfl⟩ := longDigits_eq_some_iff.1 hds
        obtain ⟨c, rest, rfl⟩ := List.exists_cons_of_ne_nil hempty
        obtain ⟨hc, hrest⟩ := List.forall_mem_cons.1 hcontinues
        have hdigit : (digitIn base c).isSome = true :=
          hc.resolve_left fun hc => hunder rest (by rw [hc])
        refine ⟨sign, c, rest, hsign, hdigit, hrest, hcs, ?_⟩
        rw [← ofDigits_eq]
        exact (Except.ok.inj h).symm
  · rintro ⟨sign, c, rest, hsign, hdigit, hrest, rfl, rfl⟩
    have hplus : c ≠ '+' := by
      rintro rfl
      cases hdigit
    have hunder : c ≠ '_' := by
      rintro rfl
      cases hdigit
    have hlong : longDigits base (c :: rest) = some ((c :: rest).filterMap (digitIn base)) :=
      longDigits_eq_some_iff.2 ⟨List.forall_mem_cons.2 ⟨Or.inr hdigit, hrest⟩, rfl⟩
    rw [dropPlus_append hsign hplus]
    split
    · next h => cases h
    · next h => exact absurd (List.cons.inj h).1 hunder
    · rw [hlong, ← ofDigits_eq]

/-! ## Numerals by their characters -/

theorem filterMap_digitIn {digit : Char → Bool} {value : Char → Nat}
    (h : ∀ c, digitIn base c = if digit c then some (value c) else none) (cs : List Char) :
    cs.filterMap (digitIn base) = (cs.filter digit).map value := by
  rw [← List.filterMap_eq_map, List.filterMap_filter]
  exact congrArg (List.filterMap · cs) (funext h)

/-- numerals of a base whose digits, and their values, are known by character -/
theorem isLong_iff_of_digitIn {digit : Char → Bool} {value : Char → Nat}
    (h : ∀ c, digitIn base c = if digit c then some (value c) else none) {cs : List Char} {n : Nat} :
    IsLong base cs n ↔
      (∃ sign c rest, IsSign sign ∧ digit c = true ∧ (∀ x ∈ rest, digit x = true ∨ x = '_') ∧
          cs = sign ++ c :: rest) ∧
        n = Nat.ofDigits base ((cs.filter digit).map value).reverse := by
  have hsome : ∀ c, (digitIn base c).isSome = digit c := fun c => by
    rw [h]
    cases digit c <;> rfl
  have hrest : ∀ rest : List Char, Continues base rest ↔ ∀ x ∈ rest, digit x = true ∨ x = '_' := fun rest =>
    forall₂_congr fun x _ => by rw [hsome, or_comm]
  have hplus : digit '+' = false := (hsome '+').symm
  -- a sign has no digit, so it does not count
  have hsign : ∀ sign cs : List Char, IsSign sign → (sign ++ cs).filter digit = cs.filter digit := by
    rintro sign cs (rfl | rfl)
    · rfl
    · rw [List.singleton_append, List.filter_cons_of_neg (by rw [hplus]; exact Bool.false_ne_true)]
  constructor
  · rintro ⟨sign, c, rest, hs, hc, hr, rfl, rfl⟩
    refine ⟨⟨sign, c, rest, hs, hsome c ▸ hc, (hrest rest).1 hr, rfl⟩, ?_⟩
    rw [hsign sign _ hs, filterMap_digitIn h]
  · rintro ⟨⟨sign, c, rest, hs, hc, hr, rfl⟩, rfl⟩
    refine ⟨sign, c, rest, hs, (hsome c).trans hc, (hrest rest).2 hr, rfl, ?_⟩
    rw [hsign sign _ hs, filterMap_digitIn h]

end ReplicatedOrders.Numeral
