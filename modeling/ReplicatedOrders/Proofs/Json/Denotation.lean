/-
Denotation: the number that a literal denotes, and how far from it the integer is that is made of it.

A real number takes the digits of its literal into 64 bits from the left, and the exponent makes up for those that are
left out. A digit is left out only after digits of about 60 bits, so the decimal that is read is near to the one that is
written.
- `Begins`: the digits that were taken are what the number starts with; `takeWhole_begins`, `takeFraction_begins`.
- `decimal_near`: the decimal that is read.
- `nearestWhole_real?`: the integer next to the real number.
- `exists_real?`: which literals are read.
-/
import ReplicatedOrders.Proofs.Integers
import ReplicatedOrders.Proofs.Scaling

namespace ReplicatedOrders.Json

open Binary64 (Near)

namespace Literal

/-- the power of ten that is written -/
def power (l : Literal) : ℤ :=
  l.exponent.elim 0 fun e => if e.1 then -Numeral.ofDigits 10 e.2 else Numeral.ofDigits 10 e.2

/-- all digits as one number -/
def allDigits (l : Literal) : Nat := Numeral.ofDigits 10 (l.whole ++ l.fraction)

/-- the number that a literal denotes, without its sign -/
def absolute (l : Literal) : ℚ := l.allDigits * 10 ^ (l.power - l.fraction.length)

/-- the number that a literal denotes -/
def value (l : Literal) : ℚ := if l.negative then -l.absolute else l.absolute

theorem absolute_nonneg (l : Literal) : 0 ≤ l.absolute := by
  unfold absolute
  positivity

/-! ## Digits that are taken -/

/-- a number that is continued with more digits -/
theorem continued_bounds {ds : List Nat} (hds : ∀ d ∈ ds, d < 10) (s : Nat) :
    s * 10 ^ ds.length ≤ ds.foldl (fun v d => 10 * v + d) s ∧
      ds.foldl (fun v d => 10 * v + d) s < (s + 1) * 10 ^ ds.length := by
  induction ds generalizing s with
  | nil => simp
  | cons d ds ih =>
    obtain ⟨hd, hrest⟩ := List.forall_mem_cons.1 hds
    obtain ⟨hlow, hhigh⟩ := ih hrest (10 * s + d)
    have hup : (10 * s + d + 1) * 10 ^ ds.length ≤ 10 * (s + 1) * 10 ^ ds.length :=
      Nat.mul_le_mul_right _ (by omega)
    have hdown : 10 * s * 10 ^ ds.length ≤ (10 * s + d) * 10 ^ ds.length := Nat.mul_le_mul_right _ (by omega)
    rw [List.length_cons, List.foldl_cons, Nat.pow_succ']
    constructor <;> linarith

/-- `t` is what a number starts with, before `r` more digits; these are left out only after many digits -/
structure Begins (t r number : Nat) : Prop where
  low : t * 10 ^ r ≤ number
  high : number < (t + 1) * 10 ^ r
  many : r ≠ 0 → 2 ^ 60 ≤ t

theorem Begins.all (number : Nat) : Begins number 0 number := ⟨by simp, by simp, by simp⟩

theorem Begins.eq {t number : Nat} (h : Begins t 0 number) : t = number := by
  have hlow := h.low
  have hhigh := h.high
  omega

/-- the next digit does not fit -/
theorem begins_of_full {s d : Nat} {ds : List Nat} (hds : ∀ x ∈ d :: ds, x < 10)
    (hfull : ¬ 10 * s + d < UInt64.size) :
    Begins s (ds.length + 1) ((d :: ds).foldl (fun v d => 10 * v + d) s) := by
  obtain ⟨hlow, hhigh⟩ := continued_bounds hds s
  have hsize : UInt64.size = 2 ^ 64 := rfl
  have hd : d < 10 := hds d List.mem_cons_self
  exact ⟨hlow, hhigh, fun _ => by omega⟩

theorem takeWhole_begins {s : Nat} {ds : List Nat} (hs : s < UInt64.size) (hds : ∀ d ∈ ds, d < 10) :
    ∃ r : Nat, (takeWhole s ds).2 = r ∧ (takeWhole s ds).1 < UInt64.size ∧
      Begins (takeWhole s ds).1 r (ds.foldl (fun v d => 10 * v + d) s) := by
  induction ds generalizing s with
  | nil => exact ⟨0, rfl, hs, .all s⟩
  | cons d ds ih =>
    rw [takeWhole]
    split_ifs with hfits
    · exact ih hfits (List.forall_mem_cons.1 hds).2
    · exact ⟨ds.length + 1, rfl, hs, begins_of_full hds hfits⟩

theorem takeFraction_begins {s : Nat} (e : ℤ) {ds : List Nat} (hs : s < UInt64.size) (hds : ∀ d ∈ ds, d < 10) :
    ∃ r : Nat, (takeFraction s e ds).2 = e + r - ds.length ∧ (takeFraction s e ds).1 < UInt64.size ∧
      Begins (takeFraction s e ds).1 r (ds.foldl (fun v d => 10 * v + d) s) := by
  induction ds generalizing s e with
  | nil => exact ⟨0, by simp [takeFraction], hs, .all s⟩
  | cons d ds ih =>
    rw [takeFraction]
    split_ifs with hfits
    · obtain ⟨r, he, htaken, hbegins⟩ := ih (e - 1) hfits (List.forall_mem_cons.1 hds).2
      exact ⟨r, by rw [he, List.length_cons]; push_cast; ring, htaken, hbegins⟩
    · exact ⟨ds.length + 1, by simp, hs, begins_of_full hds hfits⟩

/-- one unit in the last of many digits -/
theorem near_of_unit {t a b unit : ℚ} (ht : 2 ^ 60 ≤ t) (hunit : 0 ≤ unit) (hb : t * unit ≤ b) (hlow : b - unit ≤ a)
    (hhigh : a ≤ b + unit) : Near (1 / 2 ^ 60) a b := by
  have hpart : unit ≤ b * (1 / 2 ^ 60) := by linarith [mul_le_mul_of_nonneg_right ht hunit]
  rw [Near, abs_le]
  constructor <;> linarith

theorem Begins.near {t r number : Nat} (h : Begins t r number) : Near (1 / 2 ^ 60) (t * 10 ^ r) number := by
  by_cases hr : r = 0
  · subst hr
    rw [h.eq, pow_zero, mul_one, Near, sub_self, abs_zero]
    positivity
  · have hlow : (t * 10 ^ r : ℚ) ≤ number := by exact_mod_cast h.low
    have hhigh : (number : ℚ) ≤ (t + 1) * 10 ^ r := by exact_mod_cast h.high.le
    have hunit : (0 : ℚ) ≤ 10 ^ r := by positivity
    exact near_of_unit (by exact_mod_cast h.many hr) hunit hlow (by linarith) (by linarith)

/-- digits that follow a number follow what it starts with, up to one unit -/
theorem Begins.near_continued {whole s k : Nat} {ds : List Nat} (hds : ∀ d ∈ ds, d < 10) (hk : k ≠ 0)
    (hwhole : Begins s k whole) :
    Near (1 / 2 ^ 60) ((ds.foldl (fun v d => 10 * v + d) s : ℕ) * 10 ^ k)
      (ds.foldl (fun v d => 10 * v + d) whole : ℕ) := by
  obtain ⟨hslow, hshigh⟩ := continued_bounds hds s
  obtain ⟨hwlow, hwhigh⟩ := continued_bounds hds whole
  generalize ds.foldl (fun v d => 10 * v + d) s = taken at hslow hshigh ⊢
  generalize ds.foldl (fun v d => 10 * v + d) whole = number at hwlow hwhigh ⊢
  have hlow : s * 10 ^ (ds.length + k) ≤ number := by
    calc s * 10 ^ (ds.length + k) = s * 10 ^ k * 10 ^ ds.length := by ring
      _ ≤ whole * 10 ^ ds.length := Nat.mul_le_mul_right _ hwhole.low
      _ ≤ number := hwlow
  have hhigh : number ≤ (s + 1) * 10 ^ (ds.length + k) := by
    calc number ≤ (whole + 1) * 10 ^ ds.length := hwhigh.le
      _ ≤ (s + 1) * 10 ^ k * 10 ^ ds.length := Nat.mul_le_mul_right _ hwhole.high
      _ = (s + 1) * 10 ^ (ds.length + k) := by ring
  have htlow : s * 10 ^ (ds.length + k) ≤ taken * 10 ^ k := by
    rw [pow_add, ← mul_assoc]
    exact Nat.mul_le_mul_right _ hslow
  have hthigh : taken * 10 ^ k ≤ (s + 1) * 10 ^ (ds.length + k) := by
    rw [pow_add, ← mul_assoc]
    exact Nat.mul_le_mul_right _ hshigh.le
  have hunit : (0 : ℚ) ≤ 10 ^ (ds.length + k) := by positivity
  have hlow' : (s * 10 ^ (ds.length + k) : ℚ) ≤ number := by exact_mod_cast hlow
  have hhigh' : (number : ℚ) ≤ (s + 1) * 10 ^ (ds.length + k) := by exact_mod_cast hhigh
  have htlow' : (s * 10 ^ (ds.length + k) : ℚ) ≤ taken * 10 ^ k := by exact_mod_cast htlow
  have hthigh' : (taken * 10 ^ k : ℚ) ≤ (s + 1) * 10 ^ (ds.length + k) := by exact_mod_cast hthigh
  exact near_of_unit (by exact_mod_cast hwhole.many hk) hunit hlow' (by linarith) (by linarith)

/-- the digits that are taken and the exponent that makes up for the others -/
theorem significand_near {l : Literal} (hl : l.WellFormed) :
    ∃ m : Nat, l.significand.2 = m - l.fraction.length ∧ l.significand.1 < UInt64.size ∧
      Near (1 / 2 ^ 58) (l.significand.1 * 10 ^ m) l.allDigits := by
  obtain ⟨k, hk, hfits, hwhole⟩ := takeWhole_begins (s := 0) (by decide) hl.whole.lt
  obtain ⟨r, hr, hfits', htaken⟩ := takeFraction_begins (takeWhole 0 l.whole).2 hfits hl.fraction_lt
  have hall : l.allDigits = l.fraction.foldl (fun v d => 10 * v + d) (l.whole.foldl (fun v d => 10 * v + d) 0) :=
    List.foldl_append
  refine ⟨k + r, ?_, hfits', ?_⟩
  · rw [significand, hr, hk]
    push_cast
    ring
  · have hnear := htaken.near
    have hall' : (0 : ℚ) ≤ l.allDigits := Nat.cast_nonneg _
    show Near _ ((takeFraction (takeWhole 0 l.whole).1 (takeWhole 0 l.whole).2 l.fraction).1 * 10 ^ (k + r)) _
    by_cases hzero : k = 0
    · subst hzero
      rw [← hwhole.eq] at hall
      rw [← hall] at hnear
      rw [Nat.zero_add]
      exact hnear.mono hall' (by norm_num)
    · have hcontinued := hwhole.near_continued hl.fraction_lt hzero
      rw [← hall] at hcontinued
      have hscaled := hnear.scale (c := 10 ^ k) (by positivity)
      rw [mul_assoc, ← pow_add, Nat.add_comm r k] at hscaled
      exact (hscaled.trans (by norm_num) hcontinued).mono hall' (by norm_num)

/-! ## Real numbers -/

/-- a written exponent of more than 31 bits decides alone -/
theorem real?_eq (l : Literal) :
    l.real? =
      if l.power.natAbs < 2147483648 then
        Binary64.ofDecimal l.negative l.significand.1 (l.significand.2 + l.power)
      else if l.power < 0 ∨ l.significand.1 = 0 then some (.zero l.negative)
      else none := by
  obtain ⟨negative, whole, fraction, exponent⟩ := l
  simp only [real?, power]
  cases exponent with
  | none => simp
  | some e =>
    obtain ⟨down, ds⟩ := e
    cases down with
    | false =>
      have hup : ¬ (Numeral.ofDigits 10 ds : ℤ) < 0 := by omega
      simp [hup]
    | true =>
      by_cases hp : Numeral.ofDigits 10 ds < 2147483648
      · simp [hp, Int.sub_eq_add_neg]
      · have hdown : 0 < Numeral.ofDigits 10 ds := by omega
        simp [hp, hdown]

theorem negative_real? {l : Literal} {x : Binary64} (h : l.real? = some x) : x.negative = l.negative := by
  rw [real?_eq] at h
  split_ifs at h
  · simp only [Binary64.ofDecimal, bind, Option.bind_eq_some_iff, pure, Option.some.injEq] at h
    obtain ⟨y, -, z, -, rfl⟩ := h
    rfl
  · obtain rfl := Option.some.inj h
    rfl

/-- the decimal that is read is near to the one that is written -/
theorem decimal_near {l : Literal} (hl : l.WellFormed) :
    l.significand.1 < UInt64.size ∧
      Near (1 / 2 ^ 58) (l.significand.1 * 10 ^ (l.significand.2 + l.power)) l.absolute := by
  obtain ⟨m, hm, hfits, hnear⟩ := significand_near hl
  have hscaled := hnear.scale (c := 10 ^ (l.power - l.fraction.length)) (by positivity)
  have hexponent : l.significand.2 + l.power = m + (l.power - l.fraction.length) := by
    rw [hm]
    ring
  rw [mul_assoc, ← zpow_natCast (10 : ℚ) m, ← zpow_add₀ (by norm_num), ← hexponent] at hscaled
  exact ⟨hfits, hscaled⟩

theorem allDigits_lt {l : Literal} (hl : l.WellFormed) : l.allDigits < 10 ^ (l.whole.length + l.fraction.length) := by
  have hlt : ∀ d ∈ l.whole ++ l.fraction, d < 10 := List.forall_mem_append.2 ⟨hl.whole.lt, hl.fraction_lt⟩
  have hbounds := (continued_bounds hlt 0).2
  rwa [Nat.zero_add, Nat.one_mul, List.length_append] at hbounds

theorem allDigits_eq_zero_iff {l : Literal} (hl : l.WellFormed) : l.significand.1 = 0 ↔ l.allDigits = 0 := by
  obtain ⟨m, -, -, hnear⟩ := significand_near hl
  have hpower : (0 : ℚ) < 10 ^ m := by positivity
  obtain ⟨hlow, hhigh⟩ := hnear.bounds
  constructor
  · intro h
    rw [h, Nat.cast_zero, zero_mul] at hlow
    have hnone : (l.allDigits : ℚ) ≤ 0 := by linarith
    exact_mod_cast hnone.antisymm (Nat.cast_nonneg _)
  · intro h
    rw [h, Nat.cast_zero, zero_mul] at hhigh
    have hnone := nonpos_of_mul_nonpos_left hhigh hpower
    exact_mod_cast hnone.antisymm (Nat.cast_nonneg _)

/-- a large negative exponent leaves nothing of fewer digits -/
theorem absolute_le_of_down {l : Literal} (hl : l.WellFormed) (hlength : l.whole.length < 2147483648)
    (hdown : l.power ≤ -2147483648) : l.absolute ≤ 1 / 2 := by
  have hdigits : (l.allDigits : ℚ) ≤ 10 ^ (l.whole.length + l.fraction.length) := by exact_mod_cast (allDigits_lt hl).le
  calc l.absolute ≤ 10 ^ (l.whole.length + l.fraction.length) * 10 ^ (l.power - l.fraction.length) :=
        mul_le_mul_of_nonneg_right hdigits (by positivity)
    _ = 10 ^ (l.whole.length + l.power) := by
        rw [← zpow_natCast, ← zpow_add₀ (by norm_num)]
        congr 1
        push_cast
        ring
    _ ≤ 10 ^ (-1 : ℤ) := zpow_le_zpow_right₀ (by norm_num) (by omega)
    _ ≤ 1 / 2 := by norm_num

/-- **The integer that is made of a real number,** for a literal of fewer than 2 ^ 31 whole digits. -/
theorem nearestWhole_real? {l : Literal} (hl : l.WellFormed) (hlength : l.whole.length < 2147483648) {x : Binary64}
    (h : l.real? = some x) : |(x.nearestWhole : ℚ) - l.absolute| ≤ 1 / 2 + l.absolute / 2 ^ 50 := by
  have habsolute := l.absolute_nonneg
  rw [real?_eq] at h
  split_ifs at h with hpower hzero
  · obtain ⟨hfits, hnear⟩ := decimal_near hl
    have herror := Binary64.ofDecimal_nearestWhole hfits h
    have hup := hnear.bounds.2
    unfold Near at hnear
    generalize (l.significand.1 : ℚ) * 10 ^ (l.significand.2 + l.power) = v at hnear herror hup
    calc |(x.nearestWhole : ℚ) - l.absolute| ≤ |(x.nearestWhole : ℚ) - v| + |v - l.absolute| := abs_sub_le _ _ _
      _ ≤ 1 / 2 + v * (13 / 4 * Binary64.unit) + l.absolute * (1 / 2 ^ 58) := add_le_add herror hnear
      _ ≤ 1 / 2 + l.absolute / 2 ^ 50 := by
        unfold Binary64.unit
        linarith
  · obtain rfl := Option.some.inj h
    have hnothing : (Binary64.zero l.negative).magnitude < 1 / 2 := by
      rw [Binary64.magnitude_of_significand rfl]
      norm_num
    have hsmall : l.absolute ≤ 1 / 2 := by
      rcases hzero with hdown | hnone
      · exact absolute_le_of_down hl hlength (by omega)
      · rw [absolute, (allDigits_eq_zero_iff hl).1 hnone]
        norm_num
    have herror := Binary64.nearestWhole_small hnothing habsolute hsmall (r := 1 / 2 ^ 50) (by norm_num)
    rwa [mul_one_div] at herror

/-- **A literal that is not too long and not too large is read.** -/
theorem exists_real? {l : Literal} (hl : l.WellFormed) (hlength : l.whole.length + l.fraction.length ≤ 2000000000)
    (hvalue : l.absolute ≤ Binary64.readable) : ∃ x, l.real? = some x := by
  rw [real?_eq]
  split_ifs with hpower hzero
  · obtain ⟨hfits, hnear⟩ := decimal_near hl
    refine Binary64.exists_ofDecimal _ hfits (hnear.bounds.2.trans ?_)
    linarith [l.absolute_nonneg]
  · exact ⟨_, rfl⟩
  · -- an exponent that large is more than all digits of the fraction make up for
    have hone : (1 : ℚ) ≤ l.allDigits := by
      have hdigits : l.allDigits ≠ 0 := fun h => hzero (Or.inr ((allDigits_eq_zero_iff hl).2 h))
      exact_mod_cast Nat.one_le_iff_ne_zero.2 hdigits
    have hlarge := Binary64.two_readable_lt (e := l.power - l.fraction.length) (by omega)
    have hscaled : (10 : ℚ) ^ (l.power - l.fraction.length) ≤ l.absolute :=
      le_mul_of_one_le_left (by positivity) hone
    linarith [Binary64.readable_pos]

end Literal

end ReplicatedOrders.Json
