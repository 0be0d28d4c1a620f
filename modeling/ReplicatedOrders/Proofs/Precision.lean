/-
Precision: how far what an operation on binary64 numbers gives is from the exact result, as rational numbers.

An operation rounds its exact result once. Where the significand has all 53 bits, half a unit in the last of them is at
most the part `1 / 2 ^ 53` of the result; below that, half the smallest positive number is added to it.
- `two_pow_le_ratio`: above the smallest exponent the significand has 53 bits.
- `ofRatio_error`, `ofRatio_isSome`: one rounding, and which quotients have a number.
- `Near`: a number that is another up to a part of it, with products and quotients of such numbers.
- `mul_error`, `div_error`: the operations.
-/
import Mathlib.Tactic
import ReplicatedOrders.Proofs.Rounding

namespace ReplicatedOrders.Binary64

/-- the magnitude as a rational number -/
def magnitude (x : Binary64) : ℚ := x.significand * 2 ^ x.exponent

theorem zpow_eq_div (b : ℚ) (e : ℤ) : b ^ e = b ^ e.toNat / b ^ (-e).toNat := by
  rcases Int.le_total 0 e with he | he
  · obtain ⟨k, rfl⟩ := Int.eq_ofNat_of_zero_le he
    simp
  · obtain ⟨k, hk⟩ := Int.eq_ofNat_of_zero_le (Int.neg_nonneg_of_nonpos he)
    obtain rfl : e = -k := by omega
    simp

theorem magnitude_eq (x : Binary64) : x.magnitude = x.ratio.1 / x.ratio.2 := by
  rw [magnitude, zpow_eq_div]
  simp only [ratio, Nat.pow_eq]
  push_cast
  ring

/-! ## One rounding -/

/-- half the smallest positive number -/
def halfLeast : ℚ := 2 ^ minExponent / 2

theorem halfLeast_pos : 0 < halfLeast := by
  unfold halfLeast
  positivity

theorem halfLeast_le : halfLeast ≤ 1 / 2 ^ 200 := by
  have hpower : (2 : ℚ) ^ minExponent ≤ 2 ^ (-200 : ℤ) := zpow_le_zpow_right₀ one_le_two (by decide)
  rw [zpow_neg, ← one_div] at hpower
  unfold halfLeast
  norm_num at hpower ⊢
  linarith

theorem divNearest_mul_bounds (n : Nat) {d : Nat} (hd : 0 < d) :
    2 * n ≤ 2 * (divNearest n d * d) + d ∧ 2 * (divNearest n d * d) ≤ 2 * n + d := by
  have hmod : n % d < d := Nat.mod_lt n hd
  have hsplit : n / d * d + n % d = n := Nat.div_add_mod' n d
  have hodd : (n / d + n / d % 2) * d = n / d * d ∨ (n / d + n / d % 2) * d = n / d * d + d := by
    rcases Nat.mod_two_eq_zero_or_one (n / d) with h | h
    · exact Or.inl (by rw [h, Nat.add_zero])
    · exact Or.inr (by rw [h, Nat.succ_mul])
  have hup : (n / d + 1) * d = n / d * d + d := Nat.succ_mul _ _
  unfold divNearest
  split_ifs <;> omega

theorem divNearest_error {n d : Nat} (hd : 0 < d) : |(divNearest n d : ℚ) - n / d| ≤ 1 / 2 := by
  obtain ⟨hlow, hhigh⟩ := divNearest_mul_bounds n hd
  have hlow' : 2 * (n : ℚ) ≤ 2 * (divNearest n d * d) + d := by exact_mod_cast hlow
  have hhigh' : 2 * (divNearest n d * d) ≤ 2 * (n : ℚ) + d := by exact_mod_cast hhigh
  have hd' : (0 : ℚ) < d := by exact_mod_cast hd
  have hdifference : (divNearest n d : ℚ) - n / d = (divNearest n d * d - n) / d := by
    rw [sub_div, mul_div_cancel_right₀ _ hd'.ne']
  rw [hdifference, abs_div, abs_of_pos hd', div_le_iff₀ hd', abs_le]
  constructor <;> linarith

variable {n d : Nat}

theorem scaled_pos (n : Nat) {d : Nat} (hd : 0 < d) (e : ℤ) : 0 < (scaled n d e).2 := Nat.mul_pos hd (Nat.two_pow_pos _)

theorem scaled_eq (e : ℤ) : ((scaled n d e).1 : ℚ) / (scaled n d e).2 = n / d / 2 ^ e := by
  rw [zpow_eq_div]
  simp only [scaled, Nat.pow_eq]
  push_cast
  rw [div_div, ← mul_div_assoc, div_div_eq_mul_div]

/-- the leading bits of numerator and denominator, compared -/
theorem two_zpow_log2_lt (hn : n ≠ 0) (hd : d ≠ 0) : 2 ^ ((Nat.log2 n : ℤ) - Nat.log2 d - 1) < (n : ℚ) / d := by
  have hnum : (2 : ℚ) ^ Nat.log2 n ≤ n := by exact_mod_cast Nat.log2_self_le hn
  have hden : (d : ℚ) < 2 ^ (Nat.log2 d + 1) := by exact_mod_cast Nat.lt_log2_self
  have hpos : (0 : ℚ) < d := by exact_mod_cast Nat.pos_of_ne_zero hd
  have hpower : (2 : ℚ) ^ ((Nat.log2 n : ℤ) - Nat.log2 d - 1) = 2 ^ Nat.log2 n / 2 ^ (Nat.log2 d + 1) := by
    rw [sub_sub, zpow_sub₀ two_ne_zero]
    norm_cast
  rw [hpower]
  exact div_lt_div₀' hnum hden (by positivity) hpos

theorem minExponent_le_exponentFor : minExponent ≤ exponentFor n d := by
  simp only [exponentFor]
  split_ifs <;> omega

/-- above the smallest exponent the significand has 53 bits -/
theorem two_pow_le_ratio (hn : n ≠ 0) (hd : 0 < d) (he : minExponent < exponentFor n d) :
    2 ^ 52 * 2 ^ exponentFor n d ≤ (n : ℚ) / d := by
  have hlog := two_zpow_log2_lt hn hd.ne'
  have hguess : ∀ g : ℤ, 2 * leastFull * (scaled n d g).2 ≤ (scaled n d g).1 → 2 ^ 53 * 2 ^ g ≤ (n : ℚ) / d := by
    intro g hg
    have hg' : (2 * leastFull : ℚ) * (scaled n d g).2 ≤ (scaled n d g).1 := by exact_mod_cast hg
    rw [← le_div_iff₀ (by exact_mod_cast scaled_pos n hd g), scaled_eq, le_div_iff₀ (by positivity)] at hg'
    have hfull : (2 * leastFull : ℚ) = 2 ^ 53 := by norm_num [leastFull]
    rwa [hfull] at hg'
  revert he
  simp only [exponentFor]
  generalize hg : max ((Nat.log2 n : ℤ) - Nat.log2 d - 53) minExponent = g
  split_ifs with hfull
  · intro _
    rw [zpow_add_one₀ two_ne_zero]
    linarith [hguess g hfull]
  · intro he
    obtain rfl : (Nat.log2 n : ℤ) - Nat.log2 d - 53 = g := by omega
    refine le_trans (le_of_eq ?_) hlog.le
    rw [← zpow_natCast, ← zpow_add₀ two_ne_zero]
    congr 1
    push_cast
    ring

/-- the rounded quotient, before and after a carry -/
theorem ofRatio_eq_some {negative : Bool} {x : Binary64} (hn : n ≠ 0) (h : ofRatio negative n d = some x) :
    x.magnitude = divNearest (scaled n d (exponentFor n d)).1 (scaled n d (exponentFor n d)).2 *
      2 ^ exponentFor n d := by
  simp only [ofRatio, if_neg hn] at h
  generalize divNearest _ _ = s at h ⊢
  by_cases hs : s = 2 * leastFull
  · rw [if_pos hs] at h
    dsimp only at h
    split at h
    · cases h
      rw [magnitude, hs, zpow_add_one₀ two_ne_zero]
      push_cast
      ring
    · cases h
  · rw [if_neg hs] at h
    dsimp only at h
    split at h
    · cases h
      rfl
    · cases h

/-- **One rounding:** half a unit of the last of 53 bits, or half the smallest positive number. -/
theorem ofRatio_error {negative : Bool} {x : Binary64} (hd : 0 < d) (h : ofRatio negative n d = some x) :
    |x.magnitude - n / d| ≤ n / d / 2 ^ 53 + halfLeast := by
  by_cases hn : n = 0
  · subst hn
    rw [ofRatio, if_pos rfl, Option.some.injEq] at h
    subst h
    simpa [magnitude, zero] using halfLeast_pos.le
  · have hround := divNearest_error (n := (scaled n d (exponentFor n d)).1) (scaled_pos n hd (exponentFor n d))
    rw [scaled_eq] at hround
    rw [ofRatio_eq_some hn h]
    generalize hs : (divNearest _ _ : ℚ) = s at hround ⊢
    have hscale : (0 : ℚ) < 2 ^ exponentFor n d := by positivity
    have herror : |s * 2 ^ exponentFor n d - n / d| ≤ 2 ^ exponentFor n d / 2 := by
      have hfactor : s * 2 ^ exponentFor n d - n / d = (s - n / d / 2 ^ exponentFor n d) * 2 ^ exponentFor n d := by
        rw [sub_mul, div_mul_cancel₀ _ hscale.ne']
      rw [hfactor, abs_mul, abs_of_pos hscale]
      linarith [mul_le_mul_of_nonneg_right hround hscale.le]
    have hratio : (0 : ℚ) ≤ n / d := by positivity
    refine herror.trans ?_
    rcases (minExponent_le_exponentFor (n := n) (d := d)).eq_or_lt with he | he
    · rw [← he]
      exact le_add_of_nonneg_left (by positivity)
    · have hfull := two_pow_le_ratio hn hd he
      have hbits : (2 : ℚ) ^ exponentFor n d / 2 = 2 ^ 52 * 2 ^ exponentFor n d / 2 ^ 53 := by ring
      rw [hbits]
      exact (div_le_div_of_nonneg_right hfull (by positivity)).trans (le_add_of_nonneg_right halfLeast_pos.le)

/-- a quotient below half of the first power of two beyond the finite numbers has a number -/
theorem ofRatio_isSome (negative : Bool) (hd : 0 < d) (h : (n : ℚ) / d < 2 ^ (1023 : ℤ)) :
    (ofRatio negative n d).isSome := by
  by_cases hn : n = 0
  · rw [ofRatio, if_pos hn]
    rfl
  · have he : exponentFor n d < maxExponent := by
      rcases (minExponent_le_exponentFor (n := n) (d := d)).eq_or_lt with he | he
      · rw [← he]
        decide
      · have hpower : (2 : ℚ) ^ (52 + exponentFor n d) < 2 ^ (1023 : ℤ) := by
          rw [zpow_add₀ two_ne_zero]
          exact (two_pow_le_ratio hn hd he).trans_lt h
        have hexponent := (zpow_lt_zpow_iff_right₀ one_lt_two).1 hpower
        rw [maxExponent]
        omega
    simp only [ofRatio, if_neg hn]
    split_ifs with hcarry hfits hfits
    · rfl
    · exact absurd (Int.add_one_le_of_lt he) hfits
    · rfl
    · exact absurd he.le hfits

/-! ## Numbers up to a part -/

/-- `x` is `q` up to the part `u` of it -/
def Near (u x q : ℚ) : Prop := |x - q| ≤ q * u

namespace Near

variable {u x y p q : ℚ}

theorem bounds (h : Near u x q) : q * (1 - u) ≤ x ∧ x ≤ q * (1 + u) := by
  obtain ⟨hlow, hhigh⟩ := abs_le.1 h
  constructor <;> linarith

theorem mono {w : ℚ} (hq : 0 ≤ q) (huw : u ≤ w) (h : Near u x q) : Near w x q :=
  le_trans h (mul_le_mul_of_nonneg_left huw hq)

theorem scale {c : ℚ} (hc : 0 ≤ c) (h : Near u x q) : Near u (x * c) (q * c) := by
  rw [Near, ← sub_mul, abs_mul, abs_of_nonneg hc, mul_right_comm]
  exact mul_le_mul_of_nonneg_right h hc

theorem trans {w : ℚ} (hu : 0 ≤ u) (hxy : Near u x y) (hyq : Near w y q) : Near (u + w + w * u) x q := by
  calc |x - q| ≤ |x - y| + |y - q| := abs_sub_le _ _ _
    _ ≤ q * (1 + w) * u + q * w := add_le_add (le_trans hxy (mul_le_mul_of_nonneg_right hyq.bounds.2 hu)) hyq
    _ = q * (u + w + w * u) := by ring

theorem mul (hu : 0 ≤ u) (hsmall : u ≤ 1 / 9) (hp : 0 ≤ p) (hq : 0 ≤ q) (hx : Near u x p) (hy : Near u y q) :
    Near (9 / 4 * u) (x * y) (p * q) := by
  have hsplit : x * y - p * q = (x - p) * (y - q) + p * (y - q) + q * (x - p) := by ring
  have hsquare : u * u ≤ 1 / 9 * u := mul_le_mul_of_nonneg_right hsmall hu
  calc |x * y - p * q| ≤ |x - p| * |y - q| + p * |y - q| + q * |x - p| := by
        rw [hsplit, ← abs_mul, ← abs_of_nonneg hp, ← abs_of_nonneg hq, ← abs_mul, ← abs_mul, abs_of_nonneg hp,
          abs_of_nonneg hq]
        exact (abs_add_le _ _).trans (add_le_add_left (abs_add_le _ _) _)
    _ ≤ p * u * (q * u) + p * (q * u) + q * (p * u) := by
        have := hx
        have := hy
        unfold Near at *
        gcongr
    _ = p * q * (2 * u + u * u) := by ring
    _ ≤ p * q * (9 / 4 * u) := mul_le_mul_of_nonneg_left (by linarith) (mul_nonneg hp hq)

theorem pos (hsmall : u ≤ 1 / 9) (hq : 0 < q) (h : Near u x q) : 0 < x :=
  (mul_pos hq (by linarith)).trans_le h.bounds.1

theorem div (hu : 0 ≤ u) (hsmall : u ≤ 1 / 9) (hp : 0 ≤ p) (hq : 0 < q) (hx : Near u x p) (hy : Near u y q) :
    Near (9 / 4 * u) (x / y) (p / q) := by
  have hpos : 0 < y := hy.pos hsmall hq
  have hsplit : x / y - p / q = (q * (x - p) - p * (y - q)) / (q * y) := by
    field_simp
    ring
  have hnumerator : |q * (x - p) - p * (y - q)| ≤ 2 * (p * q * u) := by
    refine (abs_sub _ _).trans ?_
    rw [abs_mul, abs_mul, abs_of_nonneg hp, abs_of_pos hq]
    have h₁ := mul_le_mul_of_nonneg_left hx hq.le
    have h₂ := mul_le_mul_of_nonneg_left hy hp
    linarith
  have hdenominator : q * (8 / 9) ≤ y := (mul_le_mul_of_nonneg_left (by linarith) hq.le).trans hy.bounds.1
  rw [Near, hsplit, abs_div, abs_of_pos (mul_pos hq hpos), div_le_iff₀ (mul_pos hq hpos)]
  have hcancel : p / q * (9 / 4 * u) * (q * y) = 9 / 4 * (p * u) * y := by
    field_simp
  rw [hcancel]
  have hpart : 0 ≤ 9 / 4 * (p * u) := by positivity
  linarith [mul_le_mul_of_nonneg_left hdenominator hpart]

end Near

/-! ## Operations -/

/-- the part by which a rounded number from one on may be off, with room to spare -/
def unit : ℚ := 1 / 2 ^ 52

theorem ofNat_near {negative : Bool} {s : Nat} {x : Binary64} (h : ofRatio negative s 1 = some x) :
    Near unit x.magnitude s := by
  by_cases hs : s = 0
  · subst hs
    rw [ofRatio, if_pos rfl, Option.some.injEq] at h
    subst h
    simp [Near, magnitude, zero]
  · have herror := ofRatio_error Nat.one_pos h
    rw [Nat.cast_one, div_one] at herror
    have hone : (1 : ℚ) ≤ s := by exact_mod_cast Nat.one_le_iff_ne_zero.2 hs
    have hleast := halfLeast_le
    unfold Near unit
    linarith

theorem tenPow_near {k : Nat} {p : Binary64} (h : tenPow k = some p) : Near unit p.magnitude (10 ^ k) := by
  have hnear := ofNat_near h
  rw [Nat.pow_eq] at hnear
  exact_mod_cast hnear

variable {x y z : Binary64}

theorem mul_eq (x y : Binary64) :
    x.mul y = ofRatio (x.negative != y.negative) (x.ratio.1 * y.ratio.1) (x.ratio.2 * y.ratio.2) := rfl

theorem div_eq (x y : Binary64) :
    x.div y = ofRatio (x.negative != y.negative) (x.ratio.1 * y.ratio.2) (x.ratio.2 * y.ratio.1) := rfl

theorem ratio_mul (x y : Binary64) :
    ((x.ratio.1 * y.ratio.1 : ℕ) : ℚ) / (x.ratio.2 * y.ratio.2 : ℕ) = x.magnitude * y.magnitude := by
  rw [magnitude_eq, magnitude_eq, div_mul_div_comm, Nat.cast_mul, Nat.cast_mul]

theorem ratio_div (x y : Binary64) :
    ((x.ratio.1 * y.ratio.2 : ℕ) : ℚ) / (x.ratio.2 * y.ratio.1 : ℕ) = x.magnitude / y.magnitude := by
  rw [magnitude_eq, magnitude_eq, div_div_div_eq, Nat.cast_mul, Nat.cast_mul]

theorem ratio_fst_pos (hy : 0 < y.magnitude) : 0 < y.ratio.1 := by
  have hden : (0 : ℚ) < y.ratio.2 := by exact_mod_cast y.ratio_pos
  rw [magnitude_eq, div_pos_iff_of_pos_right hden] at hy
  exact_mod_cast hy

theorem mul_error (h : x.mul y = some z) :
    |z.magnitude - x.magnitude * y.magnitude| ≤ x.magnitude * y.magnitude / 2 ^ 53 + halfLeast := by
  rw [mul_eq] at h
  rw [← ratio_mul]
  exact ofRatio_error (Nat.mul_pos x.ratio_pos y.ratio_pos) h

theorem div_error (hy : 0 < y.magnitude) (h : x.div y = some z) :
    |z.magnitude - x.magnitude / y.magnitude| ≤ x.magnitude / y.magnitude / 2 ^ 53 + halfLeast := by
  rw [div_eq] at h
  rw [← ratio_div]
  exact ofRatio_error (Nat.mul_pos x.ratio_pos (ratio_fst_pos hy)) h

theorem mul_isSome (h : x.magnitude * y.magnitude < 2 ^ (1023 : ℤ)) : (x.mul y).isSome := by
  rw [← ratio_mul] at h
  exact ofRatio_isSome _ (Nat.mul_pos x.ratio_pos y.ratio_pos) h

theorem div_isSome (hy : 0 < y.magnitude) (h : x.magnitude / y.magnitude < 2 ^ (1023 : ℤ)) : (x.div y).isSome := by
  rw [← ratio_div] at h
  exact ofRatio_isSome _ (Nat.mul_pos x.ratio_pos (ratio_fst_pos hy)) h

end ReplicatedOrders.Binary64
