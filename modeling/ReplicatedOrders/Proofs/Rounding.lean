/-
Rounding of naturals: what the arithmetic of binary64 numbers gives where the exact result is a natural number.

`nearest53` keeps the 53 leading bits of a natural number, rounded to nearest with ties to even. Every operation is one
such rounding of its exact result, and a natural number that an operation gave is written as it is.
- `ofRatio_whole`: rounding a quotient that is a natural number.
- `mul_whole`, `ofNat_whole`: so a product and a number that is read are rounded once each.
- `ofDecimal_whole`: a significand with a positive power of ten is rounded three times.
-/
import Mathlib.Tactic
import ReplicatedOrders.Binary64

namespace ReplicatedOrders.Binary64

/-- a natural number rounded to 53 bits -/
def nearest53 (n : Nat) : Nat := divNearest n (2 ^ (Nat.log2 n - 52)) * 2 ^ (Nat.log2 n - 52)

/-! ## Division to the nearest -/

theorem divNearest_mul_right {d : Nat} (hd : 0 < d) (n p : Nat) : divNearest (n * d) (p * d) = divNearest n p := by
  have htwice : 2 * (n % p * d) = 2 * (n % p) * d := (Nat.mul_assoc _ _ _).symm
  simp only [divNearest, Nat.mul_mod_mul_right, Nat.mul_div_mul_right _ _ hd, htwice, Nat.mul_lt_mul_right hd]

theorem divNearest_one (n : Nat) : divNearest n 1 = n := by
  simp [divNearest, Nat.mod_one]

theorem divNearest_mul_self {d : Nat} (hd : 0 < d) (n : Nat) : divNearest (n * d) d = n := by
  have h := divNearest_mul_right hd n 1
  rwa [Nat.one_mul, divNearest_one] at h

theorem le_divNearest (n d : Nat) : n / d ≤ divNearest n d := by
  unfold divNearest
  split_ifs <;> omega

/-! ## Powers of two below a number -/

theorem nearest53_of_lt {n : Nat} (h : n < 2 ^ 53) : nearest53 n = n := by
  have hlog : Nat.log2 n - 52 = 0 := by
    by_cases hn : n = 0
    · subst hn; rfl
    · have := (Nat.log2_lt hn).2 h
      omega
  rw [nearest53, hlog, Nat.pow_zero, divNearest_one, Nat.mul_one]

theorem dvd_nearest53 (n : Nat) : 2 ^ (Nat.log2 n - 52) ∣ nearest53 n := Dvd.intro_left _ rfl

/-- rounding keeps the leading bit -/
theorem two_pow_log2_le_nearest53 {n : Nat} (hn : n ≠ 0) : 2 ^ Nat.log2 n ≤ nearest53 n := by
  rcases Nat.lt_or_ge (Nat.log2 n) 53 with hlog | hlog
  · rw [nearest53_of_lt ((Nat.log2_lt hn).1 hlog)]
    exact Nat.log2_self_le hn
  · have hsplit : 2 ^ Nat.log2 n = 2 ^ 52 * 2 ^ (Nat.log2 n - 52) := by
      rw [← Nat.pow_add]
      congr 1
      omega
    have hquotient : 2 ^ 52 ≤ n / 2 ^ (Nat.log2 n - 52) := by
      rw [Nat.le_div_iff_mul_le (by positivity), ← hsplit]
      exact Nat.log2_self_le hn
    rw [hsplit, nearest53]
    exact Nat.mul_le_mul_right _ (hquotient.trans (le_divNearest _ _))

theorem two_pow_le_nearest53 {n k : Nat} (h : 2 ^ k ≤ n) : 2 ^ k ≤ nearest53 n := by
  have hn : n ≠ 0 := by
    have : 0 < 2 ^ k := by positivity
    omega
  have hlog : k ≤ Nat.log2 n := (Nat.le_log2 hn).2 h
  exact (Nat.pow_le_pow_right (by omega) hlog).trans (two_pow_log2_le_nearest53 hn)

/-- the length of a product is the sum of the lengths, or one less -/
theorem log2_mul {n d : Nat} (hn : n ≠ 0) (hd : d ≠ 0) :
    Nat.log2 (n * d) = Nat.log2 n + Nat.log2 d ∨ Nat.log2 (n * d) = Nat.log2 n + Nat.log2 d + 1 := by
  have hnd : n * d ≠ 0 := Nat.mul_ne_zero hn hd
  have hlow : Nat.log2 n + Nat.log2 d ≤ Nat.log2 (n * d) := by
    rw [Nat.le_log2 hnd, Nat.pow_add]
    exact Nat.mul_le_mul (Nat.log2_self_le hn) (Nat.log2_self_le hd)
  have hhigh : Nat.log2 (n * d) < Nat.log2 n + 1 + (Nat.log2 d + 1) := by
    rw [Nat.log2_lt hnd, Nat.pow_add]
    exact Nat.mul_lt_mul'' Nat.lt_log2_self Nat.lt_log2_self
  omega

/-- whether `n / 2 ^ g` has more than 53 bits before the point -/
theorem full_iff {n d : Nat} (hn : n ≠ 0) (hd : 0 < d) (g : Int) :
    2 * leastFull * (scaled (n * d) d g).2 ≤ (scaled (n * d) d g).1 ↔ 53 + g ≤ Nat.log2 n := by
  have hcancel : 2 * leastFull * (scaled (n * d) d g).2 ≤ (scaled (n * d) d g).1 ↔
      2 ^ 53 * 2 ^ g.toNat ≤ n * 2 ^ (-g).toNat := by
    have hleft : 2 * leastFull * (d * Nat.pow 2 g.toNat) = 2 ^ 53 * 2 ^ g.toNat * d := by
      rw [Nat.pow_eq, leastFull]
      ring
    have hright : n * d * Nat.pow 2 (-g).toNat = n * 2 ^ (-g).toNat * d := by
      rw [Nat.pow_eq]
      ring
    simp only [scaled]
    rw [hleft, hright, Nat.mul_le_mul_right_iff hd]
  rw [hcancel]
  rcases Int.le_total 0 g with hg | hg
  · have hzero : (-g).toNat = 0 := by omega
    rw [hzero, Nat.pow_zero, Nat.mul_one, ← Nat.pow_add, ← Nat.le_log2 hn]
    omega
  · have hzero : g.toNat = 0 := by omega
    rw [hzero, Nat.pow_zero, Nat.mul_one]
    by_cases hm : 53 ≤ (-g).toNat
    · have hpow : 2 ^ 53 ≤ 2 ^ (-g).toNat := Nat.pow_le_pow_right (by omega) hm
      have hle : 2 ^ (-g).toNat ≤ n * 2 ^ (-g).toNat := Nat.le_mul_of_pos_left _ (by omega)
      exact iff_of_true (by omega) (by omega)
    · have hsplit : 2 ^ 53 = 2 ^ (53 - (-g).toNat) * 2 ^ (-g).toNat := by
        rw [← Nat.pow_add]
        congr 1
        omega
      rw [hsplit, Nat.mul_le_mul_right_iff (by positivity), ← Nat.le_log2 hn]
      omega

/-- the exponent that puts the 53 leading bits of a natural number before the point -/
theorem exponentFor_mul {n d : Nat} (hn : n ≠ 0) (hd : 0 < d) : exponentFor (n * d) d = (Nat.log2 n : Int) - 52 := by
  have hlog := log2_mul hn (Nat.pos_iff_ne_zero.1 hd)
  have hguess : max ((Nat.log2 (n * d) : Int) - Nat.log2 d - 53) minExponent =
      (Nat.log2 (n * d) : Int) - Nat.log2 d - 53 := by
    rw [minExponent]
    omega
  simp only [exponentFor, hguess, full_iff hn hd]
  split <;> omega

/-! ## Naturals as binary64 numbers -/

/-- the magnitude of `x` is the natural number `n` -/
def IsWhole (x : Binary64) (n : Nat) : Prop := x.ratio.1 = n * x.ratio.2

theorem ratio_pos (x : Binary64) : 0 < x.ratio.2 := Nat.two_pow_pos _

theorem IsWhole.nearestWhole {x : Binary64} {n : Nat} (h : x.IsWhole n) : x.nearestWhole = n := by
  have hratio : x.nearestWhole = divNearest x.ratio.1 x.ratio.2 := rfl
  rw [hratio, show x.ratio.1 = n * x.ratio.2 from h]
  exact divNearest_mul_self x.ratio_pos n

/-- half the significand and twice the power of two -/
theorem isWhole_carry {negative : Bool} {s n : Nat} {e : Int} (h : IsWhole ⟨negative, 2 * s, e⟩ n) :
    IsWhole ⟨negative, s, e + 1⟩ n := by
  have hvalue : 2 * s * 2 ^ e.toNat = n * 2 ^ (-e).toNat := h
  show s * 2 ^ (e + 1).toNat = n * 2 ^ (-(e + 1)).toNat
  rcases lt_or_ge e 0 with he | he
  · have hup : e.toNat = 0 ∧ (e + 1).toNat = 0 := by omega
    have hdown : (-e).toNat = (-(e + 1)).toNat + 1 := by omega
    rw [hup.1, hdown, Nat.pow_succ, ← Nat.mul_assoc] at hvalue
    rw [hup.2]
    omega
  · have hup : (e + 1).toNat = e.toNat + 1 := by omega
    have hdown : (-e).toNat = 0 ∧ (-(e + 1)).toNat = 0 := by omega
    rw [hdown.1] at hvalue
    rw [hup, hdown.2, Nat.pow_succ, ← hvalue]
    ring

/-- the exact quotient, rounded where it has 53 bits -/
theorem divNearest_scaled {n d : Nat} (hn : n ≠ 0) (hd : 0 < d) (negative : Bool) :
    IsWhole ⟨negative, divNearest (scaled (n * d) d ((Nat.log2 n : Int) - 52)).1
      (scaled (n * d) d ((Nat.log2 n : Int) - 52)).2, (Nat.log2 n : Int) - 52⟩ (nearest53 n) := by
  simp only [IsWhole, ratio, scaled, Nat.pow_eq]
  rcases Nat.lt_or_ge (Nat.log2 n) 52 with hlog | hlog
  · have hup : ((Nat.log2 n : Int) - 52).toNat = 0 := by omega
    have hsmall : n < 2 ^ 53 := (Nat.log2_lt hn).1 (by omega)
    have hassoc : n * d * 2 ^ (-((Nat.log2 n : Int) - 52)).toNat = n * 2 ^ (-((Nat.log2 n : Int) - 52)).toNat * d := by
      ring
    rw [hup, Nat.pow_zero, Nat.mul_one, Nat.mul_one, hassoc, divNearest_mul_self hd, nearest53_of_lt hsmall]
  · have hup : ((Nat.log2 n : Int) - 52).toNat = Nat.log2 n - 52 := by omega
    have hdown : (-((Nat.log2 n : Int) - 52)).toNat = 0 := by omega
    rw [hup, hdown, Nat.pow_zero, Nat.mul_one, Nat.mul_one, Nat.mul_comm d, divNearest_mul_right hd, nearest53]

/-- **Rounding a natural number that is given as a quotient.** -/
theorem ofRatio_whole {negative : Bool} {n d : Nat} (hd : 0 < d) {x : Binary64}
    (h : ofRatio negative (n * d) d = some x) : x.IsWhole (nearest53 n) := by
  by_cases hn : n = 0
  · subst hn
    rw [Nat.zero_mul, ofRatio, if_pos rfl, Option.some.injEq] at h
    subst h
    rw [nearest53_of_lt (by positivity), IsWhole, Nat.zero_mul]
    exact Nat.zero_mul _
  · have hnd : n * d ≠ 0 := Nat.mul_ne_zero hn (Nat.pos_iff_ne_zero.1 hd)
    have hexact := divNearest_scaled hn hd negative
    simp only [ofRatio, if_neg hnd, exponentFor_mul hn hd] at h
    generalize divNearest _ _ = s at h hexact
    by_cases hs : s = 2 * leastFull
    · rw [if_pos hs] at h
      dsimp only at h
      split at h
      · cases h
        exact isWhole_carry (hs ▸ hexact)
      · cases h
    · rw [if_neg hs] at h
      dsimp only at h
      split at h
      · cases h
        exact hexact
      · cases h

/-! ## Operations -/

theorem mul_whole {x y z : Binary64} {m n : Nat} (hx : x.IsWhole m) (hy : y.IsWhole n) (h : x.mul y = some z) :
    z.IsWhole (nearest53 (m * n)) := by
  have hpos : 0 < x.ratio.2 * y.ratio.2 := Nat.mul_pos x.ratio_pos y.ratio_pos
  have hproduct : x.ratio.1 * y.ratio.1 = m * n * (x.ratio.2 * y.ratio.2) := by
    rw [show x.ratio.1 = m * x.ratio.2 from hx, show y.ratio.1 = n * y.ratio.2 from hy]
    ring
  have hmul : x.mul y = ofRatio (x.negative != y.negative) (x.ratio.1 * y.ratio.1) (x.ratio.2 * y.ratio.2) := rfl
  rw [hmul, hproduct] at h
  exact ofRatio_whole hpos h

theorem ofNat_whole {negative : Bool} {n : Nat} {x : Binary64} (h : ofRatio negative n 1 = some x) :
    x.IsWhole (nearest53 n) := by
  rw [← Nat.mul_one n] at h
  exact ofRatio_whole Nat.one_pos h

/-- **A significand with a positive power of ten is rounded three times:** by itself, the power, and their product. -/
theorem ofDecimal_whole {negative : Bool} {s k : Nat} {x : Binary64} (h : ofDecimal negative s k = some x) :
    x.negative = negative ∧ x.IsWhole (nearest53 (nearest53 s * nearest53 (10 ^ k))) := by
  simp only [ofDecimal, bind, Option.bind_eq_some_iff, pure, Option.some.injEq] at h
  obtain ⟨y, hy, z, hz, rfl⟩ := h
  have hs := ofNat_whole hy
  refine ⟨rfl, ?_⟩
  show z.IsWhole _
  rw [scaleTen, if_pos (Int.natCast_nonneg k)] at hz
  split at hz
  · obtain ⟨w, hw, hmul⟩ := Option.bind_eq_some_iff.1 hz
    exact mul_whole hs (ofNat_whole hw) hmul
  · split at hz
    · next hzero =>
      cases hz
      have hnone : nearest53 s = 0 := by
        have hvalue : y.significand * 2 ^ y.exponent.toNat = nearest53 s * 2 ^ (-y.exponent).toNat := hs
        rw [hzero, Nat.zero_mul] at hvalue
        exact (Nat.mul_eq_zero.1 hvalue.symm).resolve_right (by positivity)
      rw [hnone, Nat.zero_mul, nearest53_of_lt (by positivity)]
      rw [hnone] at hs
      exact hs
    · cases hz

end ReplicatedOrders.Binary64
