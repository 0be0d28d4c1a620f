/-
Scaling: how far the integer next to a decimal that was read is from the decimal.

A significand and a power of ten are two rounded numbers, and their product or quotient is rounded once more, as long as
the power is within 308 places. Further down nothing is left of a significand of 64 bits; further up only zero has a
number.
- `scaleTen_error`, `scaleTen_small`, `scaleTen_large`: the three ranges of the power of ten.
- `ofDecimal_nearestWhole`: the integer is off by a half and a small part of the decimal.
- `exists_ofDecimal`: every decimal up to `readable` is read.
-/
import ReplicatedOrders.Proofs.Precision

namespace ReplicatedOrders.Binary64

variable {x y z : Binary64}

/-! ## A significand and a power of ten -/

theorem unit_nonneg : 0 ≤ unit := by
  unfold unit
  positivity

theorem unit_le : unit ≤ 1 / 9 := by
  unfold unit
  norm_num

/-- an operation on two numbers that are near to what they stand for -/
theorem rounded_error {a b v : ℚ} (hv : 0 ≤ v) (hb : Near (9 / 4 * unit) b v)
    (ha : |a - b| ≤ b / 2 ^ 53 + halfLeast) : |a - v| ≤ v * (3 * unit) + halfLeast := by
  have hbound : b / 2 ^ 53 ≤ v * (3 / 4 * unit) := by
    have hup := hb.bounds.2
    unfold unit at *
    linarith
  calc |a - v| ≤ |a - b| + |b - v| := abs_sub_le _ _ _
    _ ≤ b / 2 ^ 53 + halfLeast + v * (9 / 4 * unit) := add_le_add ha hb
    _ ≤ v * (3 * unit) + halfLeast := by linarith

/-- **A significand and a power of ten within 308 places:** two near numbers and one more rounding. -/
theorem scaleTen_error {v : ℚ} (hv : 0 ≤ v) {e : ℤ} (hx : Near unit x.magnitude v) (hlow : -308 ≤ e) (hhigh : e ≤ 308)
    (h : x.scaleTen e = some y) : |y.magnitude - v * 10 ^ e| ≤ v * 10 ^ e * (3 * unit) + halfLeast := by
  unfold scaleTen at h
  split_ifs at h with he
  · obtain ⟨p, hp, hmul⟩ := Option.bind_eq_some_iff.1 h
    obtain ⟨k, rfl⟩ := Int.eq_ofNat_of_zero_le he
    have hnear := hx.mul unit_nonneg unit_le hv (by positivity) (tenPow_near hp)
    exact rounded_error (by positivity) hnear (mul_error hmul)
  · obtain ⟨k, hk⟩ := Int.eq_ofNat_of_zero_le (show 0 ≤ -e by omega)
    obtain rfl : e = -k := by omega
    have hsteps : ((- -(k : ℤ)).toNat - 1) / 308 = 0 := by omega
    have hplaces : (- -(k : ℤ)).toNat - 308 * 0 = k := by omega
    simp only [hsteps, hplaces] at h
    obtain ⟨w, hw, p, hp, hdiv⟩ : ∃ w, shrink 0 x = some w ∧ ∃ p, tenPow k = some p ∧ w.div p = some y := by
      simpa only [bind, Option.bind_eq_some_iff] using h
    obtain rfl := Option.some.inj hw
    have hten := tenPow_near hp
    have hnear := hx.div unit_nonneg unit_le hv (by positivity) hten
    rw [zpow_neg, ← div_eq_mul_inv, zpow_natCast]
    exact rounded_error (by positivity) hnear (div_error (hten.pos unit_le (by positivity)) hdiv)

/-! ## Powers of ten that are divided by more than once -/

/-- a quotient by a power of ten is at most twice a bound that is not tiny -/
theorem div_tenPow_le {k : Nat} {p : Binary64} (hp : tenPow k = some p) {m : ℚ}
    (hx : x.magnitude ≤ m * 10 ^ k) (hm : 1 / 2 ^ 190 ≤ m) (h : x.div p = some y) : y.magnitude ≤ 2 * m := by
  have hten := tenPow_near hp
  have hpos : 0 < p.magnitude := hten.pos unit_le (by positivity)
  have herror := (abs_le.1 (div_error hpos h)).2
  have hquotient : x.magnitude / p.magnitude ≤ 9 / 8 * m := by
    rw [div_le_iff₀ hpos]
    have hlow : (10 : ℚ) ^ k * (8 / 9) ≤ p.magnitude :=
      (mul_le_mul_of_nonneg_left (by linarith [unit_le]) (by positivity)).trans hten.bounds.1
    have hscaled := mul_le_mul_of_nonneg_left hlow (show 0 ≤ 9 / 8 * m by positivity)
    linarith
  have hleast := halfLeast_le
  linarith

theorem magnitude_of_significand (hx : x.significand = 0) : x.magnitude = 0 := by
  rw [magnitude, hx, Nat.cast_zero, zero_mul]

/-- one division by the largest power leaves nothing of a number of 65 bits -/
theorem shrink_one {p : Binary64} (hp : tenPow 308 = some p) (hx : x.magnitude ≤ 2 ^ 65) (h : x.div p = some y) :
    y.magnitude ≤ 1 / 8 := by
  have hpower : (10 : ℚ) ^ 100 ≤ 10 ^ 308 := pow_le_pow_right₀ (by norm_num) (by norm_num)
  have hlarge : (2 : ℚ) ^ 65 ≤ 1 / 16 * 10 ^ 100 := by norm_num
  have hfits : x.magnitude ≤ 1 / 16 * 10 ^ 308 :=
    hx.trans (hlarge.trans (mul_le_mul_of_nonneg_left hpower (by norm_num)))
  have hbound := div_tenPow_le hp hfits (by norm_num) h
  linarith

theorem shrink_le {k : Nat} {bound : ℚ} (hlow : 1 / 8 ≤ bound) (hhigh : bound ≤ 2 ^ 65) (hx : x.magnitude ≤ bound)
    (h : shrink k x = some y) : y.magnitude ≤ bound := by
  induction k generalizing x with
  | zero =>
    obtain rfl := Option.some.inj h
    exact hx
  | succ k ih =>
    rw [shrink] at h
    split_ifs at h
    · obtain rfl := Option.some.inj h
      exact hx
    · obtain ⟨p, hp, z, hz, hrest⟩ : ∃ p, tenPow 308 = some p ∧ ∃ z, x.div p = some z ∧ shrink k z = some y := by
        simpa only [bind, Option.bind_eq_some_iff] using h
      exact ih ((shrink_one hp (hx.trans hhigh) hz).trans hlow) hrest

theorem shrink_succ_le {k : Nat} (hx : x.magnitude ≤ 2 ^ 65) (h : shrink (k + 1) x = some y) :
    y.magnitude ≤ 1 / 8 := by
  rw [shrink] at h
  split_ifs at h with hzero
  · obtain rfl := Option.some.inj h
    rw [magnitude_of_significand hzero]
    norm_num
  · obtain ⟨p, hp, z, hz, hrest⟩ : ∃ p, tenPow 308 = some p ∧ ∃ z, x.div p = some z ∧ shrink k z = some y := by
      simpa only [bind, Option.bind_eq_some_iff] using h
    exact shrink_le le_rfl (by norm_num) (shrink_one hp hx hz) hrest

/-- nothing is left after more than 308 places down -/
theorem scaleTen_small {e : ℤ} (he : e < -308) (hx : x.magnitude ≤ 2 ^ 65) (h : x.scaleTen e = some y) :
    y.magnitude ≤ 1 / 4 := by
  have hnegative : ¬ 0 ≤ e := by omega
  rw [scaleTen, if_neg hnegative] at h
  obtain ⟨k, hk⟩ : ∃ k, ((-e).toNat - 1) / 308 = k + 1 := Nat.exists_eq_add_one_of_ne_zero (by omega)
  simp only [hk] at h
  obtain ⟨w, hw, p, hp, hdiv⟩ : ∃ w, shrink (k + 1) x = some w ∧
      ∃ p, tenPow ((-e).toNat - 308 * (k + 1)) = some p ∧ w.div p = some y := by
    simpa only [bind, Option.bind_eq_some_iff] using h
  have hone : (1 : ℚ) ≤ 10 ^ ((-e).toNat - 308 * (k + 1)) := one_le_pow₀ (by norm_num)
  have hbound := div_tenPow_le (m := 1 / 8) hp (by linarith [shrink_succ_le hx hw]) (by norm_num) hdiv
  linarith

/-- only zero has a number after more than 308 places up -/
theorem scaleTen_large {e : ℤ} (he : 308 < e) (h : x.scaleTen e = some y) : x.significand = 0 ∧ y = x := by
  have hpositive : 0 ≤ e := by omega
  rw [scaleTen, if_pos hpositive, if_neg (by omega)] at h
  split_ifs at h with hzero
  exact ⟨hzero, (Option.some.inj h).symm⟩

/-! ## The nearest integer -/

theorem nearestWhole_error (x : Binary64) : |(x.nearestWhole : ℚ) - x.magnitude| ≤ 1 / 2 := by
  rw [magnitude_eq]
  exact divNearest_error x.ratio_pos

theorem nearestWhole_of_lt (hx : x.magnitude < 1 / 2) : x.nearestWhole = 0 := by
  have hhigh := (abs_le.1 x.nearestWhole_error).2
  have hone : (x.nearestWhole : ℚ) < 1 := by linarith
  exact Nat.lt_one_iff.1 (by exact_mod_cast hone)

theorem nearestWhole_small {v : ℚ} (hx : x.magnitude < 1 / 2) (hv : 0 ≤ v) (hsmall : v ≤ 1 / 2) {r : ℚ} (hr : 0 ≤ r) :
    |(x.nearestWhole : ℚ) - v| ≤ 1 / 2 + v * r := by
  rw [nearestWhole_of_lt hx, Nat.cast_zero, zero_sub, abs_neg, abs_of_nonneg hv]
  linarith [mul_nonneg hv hr]

/-- **The integer next to a decimal that was read.** It is off by a half and a part of the decimal. -/
theorem ofDecimal_nearestWhole {negative : Bool} {s : Nat} {e : ℤ} (hs : s < UInt64.size)
    (h : ofDecimal negative s e = some x) :
    |(x.nearestWhole : ℚ) - s * 10 ^ e| ≤ 1 / 2 + s * 10 ^ e * (13 / 4 * unit) := by
  have hunit := unit_nonneg
  have hsmallUnit := unit_le
  have hpart : 0 ≤ 13 / 4 * unit := by linarith
  have hs' : (s : ℚ) < 2 ^ 64 := by exact_mod_cast hs
  simp only [ofDecimal, bind, Option.bind_eq_some_iff, pure, Option.some.injEq] at h
  obtain ⟨y, hy, z, hz, rfl⟩ := h
  show |(z.nearestWhole : ℚ) - _| ≤ _
  have hnear := ofNat_near hy
  have hvalue : (0 : ℚ) ≤ s * 10 ^ e := by positivity
  rcases lt_or_ge e (-308) with hlow | hlow
  · have hyhigh : y.magnitude ≤ 2 ^ 65 := by
      have := hnear.bounds.2
      nlinarith
    have hleft := scaleTen_small hlow hyhigh hz
    have hpower : (10 : ℚ) ^ e ≤ 10 ^ (-20 : ℤ) := zpow_le_zpow_right₀ (by norm_num) (by omega)
    have hlast : (s : ℚ) * 10 ^ e ≤ 1 / 2 := by
      calc (s : ℚ) * 10 ^ e ≤ 2 ^ 64 * 10 ^ (-20 : ℤ) := by gcongr
        _ ≤ 1 / 2 := by norm_num
    exact nearestWhole_small (by linarith) hvalue hlast hpart
  · rcases lt_or_ge 308 e with hhigh | hhigh
    · obtain ⟨hzero, rfl⟩ := scaleTen_large hhigh hz
      have hnothing : z.magnitude = 0 := magnitude_of_significand hzero
      have hsnothing : (s : ℚ) = 0 := by
        have hlowest := hnear.bounds.1
        rw [hnothing] at hlowest
        nlinarith [Nat.cast_nonneg (α := ℚ) s]
      exact nearestWhole_small (by rw [hnothing]; norm_num) hvalue (by rw [hsnothing]; norm_num) hpart
    · have herror := scaleTen_error (Nat.cast_nonneg s) hnear hlow hhigh hz
      have hleast := halfLeast_le
      generalize (s : ℚ) * 10 ^ e = v at hvalue herror ⊢
      rcases lt_or_ge v (1 / 8) with hsmall | hlarge
      · have hleft : z.magnitude < 1 / 2 := by
          have := (abs_le.1 herror).2
          nlinarith
        exact nearestWhole_small hleft hvalue (by linarith) hpart
      · calc |(z.nearestWhole : ℚ) - v| ≤ |(z.nearestWhole : ℚ) - z.magnitude| + |z.magnitude - v| := abs_sub_le _ _ _
          _ ≤ 1 / 2 + (v * (3 * unit) + halfLeast) := add_le_add z.nearestWhole_error herror
          _ ≤ 1 / 2 + v * (13 / 4 * unit) := by
            unfold unit
            linarith

/-! ## Which decimals are read -/

/-- a magnitude up to which every decimal is read -/
def readable : ℚ := 10 ^ 307

theorem readable_pos : 0 < readable := by
  unfold readable
  positivity

theorem four_readable_lt : 4 * readable < 2 ^ (1023 : ℤ) := by
  have hnat : 4 * 10 ^ 307 < 2 ^ 1023 := by decide +kernel
  unfold readable
  exact_mod_cast hnat

theorem two_readable_lt {e : ℤ} (he : 308 ≤ e) : 2 * readable < 10 ^ e := by
  have hpower : readable * 10 ≤ 10 ^ e := by
    rw [readable, ← pow_succ, ← zpow_natCast]
    exact zpow_le_zpow_right₀ (by norm_num) he
  linarith [readable_pos]

theorem tenPow_isSome {k : Nat} (hk : k ≤ 308) : (tenPow k).isSome := by
  rcases Nat.lt_or_ge k 308 with hlt | hge
  · have hpower : (10 : ℚ) ^ k ≤ readable := pow_le_pow_right₀ (by norm_num) (by omega)
    have hfits : ((10 ^ k : ℕ) : ℚ) / (1 : ℕ) < 2 ^ (1023 : ℤ) := by
      rw [Nat.cast_one, div_one, Nat.cast_pow, Nat.cast_ofNat]
      exact (hpower.trans (le_mul_of_one_le_left readable_pos.le (by norm_num))).trans_lt four_readable_lt
    exact ofRatio_isSome false Nat.one_pos hfits
  · obtain rfl : k = 308 := by omega
    decide +kernel

theorem exists_div_tenPow {k : Nat} (hk : k ≤ 308) (hx : x.magnitude ≤ 2 ^ 65) :
    ∃ p, tenPow k = some p ∧ ∃ z, x.div p = some z := by
  obtain ⟨p, hp⟩ := Option.isSome_iff_exists.1 (tenPow_isSome hk)
  have hten := tenPow_near hp
  have hpos : 0 < p.magnitude := hten.pos unit_le (by positivity)
  have hone : (1 : ℚ) ≤ 10 ^ k := one_le_pow₀ (by norm_num)
  have hlow : 1 / 2 ≤ p.magnitude := by
    have := hten.bounds.1
    nlinarith [unit_le, unit_nonneg]
  have hpower : (2 : ℚ) ^ 66 < 2 ^ (1023 : ℤ) := by
    rw [← zpow_natCast]
    exact zpow_lt_zpow_right₀ one_lt_two (by norm_num)
  have hquotient : x.magnitude / p.magnitude ≤ 2 ^ 66 := by
    rw [div_le_iff₀ hpos]
    linarith
  exact ⟨p, hp, Option.isSome_iff_exists.1 (div_isSome hpos (hquotient.trans_lt hpower))⟩

theorem exists_shrink (k : Nat) (hx : x.magnitude ≤ 2 ^ 65) : ∃ y, shrink k x = some y := by
  induction k generalizing x with
  | zero => exact ⟨x, rfl⟩
  | succ k ih =>
    rw [shrink]
    split_ifs
    · exact ⟨x, rfl⟩
    · obtain ⟨p, hp, z, hz⟩ := exists_div_tenPow (k := 308) le_rfl hx
      obtain ⟨y, hy⟩ := ih (x := z) ((shrink_one hp hx hz).trans (by norm_num))
      refine ⟨y, ?_⟩
      simp only [bind, Option.bind_eq_some_iff]
      exact ⟨p, hp, z, hz, hy⟩

theorem exists_scaleTen {v : ℚ} {e : ℤ} (hv : 0 ≤ v) (hx : Near unit x.magnitude v) (hhigh : x.magnitude ≤ 2 ^ 65)
    (he : e ≤ 308) (hfits : v * 10 ^ e ≤ 2 * readable) : ∃ y, x.scaleTen e = some y := by
  unfold scaleTen
  split_ifs with hpositive
  · obtain ⟨k, rfl⟩ := Int.eq_ofNat_of_zero_le hpositive
    obtain ⟨p, hp⟩ := Option.isSome_iff_exists.1 (tenPow_isSome (k := k) (by omega))
    have hnear := hx.mul unit_nonneg unit_le hv (by positivity) (tenPow_near hp)
    have hproduct : x.magnitude * p.magnitude < 2 ^ (1023 : ℤ) := by
      have hfits' : v * 10 ^ k ≤ 2 * readable := hfits
      have htwice : v * 10 ^ k * (1 + 9 / 4 * unit) ≤ v * 10 ^ k * 2 :=
        mul_le_mul_of_nonneg_left (by linarith [unit_le]) (by positivity)
      have hfour : v * 10 ^ k * 2 ≤ 4 * readable := by linarith
      exact ((hnear.bounds.2.trans htwice).trans hfour).trans_lt four_readable_lt
    obtain ⟨y, hy⟩ := Option.isSome_iff_exists.1 (mul_isSome hproduct)
    exact ⟨y, Option.bind_eq_some_iff.2 ⟨p, hp, hy⟩⟩
  · simp only [bind, Option.bind_eq_some_iff]
    obtain ⟨w, hw⟩ := exists_shrink (((-e).toNat - 1) / 308) hhigh
    have hwhigh : w.magnitude ≤ 2 ^ 65 := shrink_le (by norm_num) le_rfl hhigh hw
    obtain ⟨p, hp, y, hy⟩ := exists_div_tenPow (k := (-e).toNat - 308 * (((-e).toNat - 1) / 308)) (by omega) hwhigh
    exact ⟨y, w, hw, p, hp, hy⟩

/-- **Every decimal of 64 bits up to ten to the power of 307 is read.** -/
theorem exists_ofDecimal (negative : Bool) {s : Nat} {e : ℤ} (hs : s < UInt64.size)
    (hfits : (s : ℚ) * 10 ^ e ≤ 2 * readable) : ∃ x, ofDecimal negative s e = some x := by
  have hs' : (s : ℚ) < 2 ^ 64 := by exact_mod_cast hs
  have hpower : (2 : ℚ) ^ 64 < 2 ^ (1023 : ℤ) := by
    rw [← zpow_natCast]
    exact zpow_lt_zpow_right₀ one_lt_two (by norm_num)
  obtain ⟨y, hy⟩ := Option.isSome_iff_exists.1
    (ofRatio_isSome (n := s) false Nat.one_pos (by rw [Nat.cast_one, div_one]; exact hs'.trans hpower))
  have hnear := ofNat_near hy
  have hhigh : y.magnitude ≤ 2 ^ 65 := by
    have := hnear.bounds.2
    nlinarith [unit_le, unit_nonneg]
  have hscaled : ∃ z, y.scaleTen e = some z := by
    rcases le_or_gt e 308 with he | he
    · exact exists_scaleTen (Nat.cast_nonneg s) hnear hhigh he hfits
    · have hzero : s = 0 := by
        by_contra hne
        have hone : (1 : ℚ) ≤ s := by exact_mod_cast Nat.one_le_iff_ne_zero.2 hne
        have hscale : (10 : ℚ) ^ e ≤ s * 10 ^ e := le_mul_of_one_le_left (by positivity) hone
        exact absurd (hscale.trans hfits) (two_readable_lt he.le).not_ge
      subst hzero
      rw [ofRatio, if_pos rfl, Option.some.injEq] at hy
      subst hy
      refine ⟨zero false, ?_⟩
      have hpositive : 0 ≤ e := by omega
      rw [scaleTen, if_pos hpositive, if_neg (by omega)]
      exact if_pos rfl
  obtain ⟨z, hz⟩ := hscaled
  refine ⟨{ z with negative }, ?_⟩
  simp only [ofDecimal, hy, hz, bind, Option.bind_some, pure]

end ReplicatedOrders.Binary64
