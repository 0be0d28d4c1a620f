/-
Backoff: how long a run waits after so many failed reads in a row.

The power of two is cut at the largest number of 32 bits, and the product at the longest duration. Neither cut is ever
seen: a power that was cut is larger than the longest delay in milliseconds, so with it every first delay but the empty
one is cut at the longest delay anyway.
- `doubling_eq`: the power and its cut.
- `backoff_eq`: the delay without either cut.
- `backoff_eq_zero_iff`, `backoff_mono_attempt`, `backoff_mono_base`: what follows from it.
- `Settings.baseDelay_lt`: the first delays that settings hold.
- `backoff_doubles_to_cap`: all of it.
-/
import ReplicatedOrders.Proofs.Variables

namespace ReplicatedOrders

/-! ## Delays -/

theorem doubling_eq (n : Nat) : doubling n = min (2 ^ n) (2 ^ 32 - 1) := by
  by_cases hn : n < 32
  · have hpow : 2 ^ n ≤ 2 ^ 31 := Nat.pow_le_pow_right (by decide) (by omega)
    have hle : 2 ^ n ≤ 2 ^ 32 - 1 := Nat.le_trans hpow (by decide)
    rw [doubling, if_pos hn, Nat.min_eq_left hle]
    rfl
  · have hpow : 2 ^ 32 ≤ 2 ^ n := Nat.pow_le_pow_right (by decide) (by omega)
    have hle : 2 ^ 32 - 1 ≤ 2 ^ n := Nat.le_trans (by decide) hpow
    rw [doubling, if_neg hn, Nat.min_eq_right hle]
    rfl

/-- a factor that is at least the cap may as well be the cap -/
theorem min_mul_min {base factor bound cap : Nat} (h : cap ≤ bound) :
    min (base * min factor bound) cap = min (base * factor) cap := by
  rcases Nat.eq_zero_or_pos base with rfl | hbase
  · rw [Nat.zero_mul, Nat.zero_mul]
  · rcases Nat.le_total factor bound with hle | hle
    · rw [Nat.min_eq_left hle]
    · have hcut : cap ≤ base * bound := Nat.le_trans h (Nat.le_mul_of_pos_left bound hbase)
      have hwhole : cap ≤ base * factor := Nat.le_trans hcut (Nat.mul_le_mul_left base hle)
      rw [Nat.min_eq_right hle, Nat.min_eq_right hcut, Nat.min_eq_right hwhole]

/-- **The delay doubles with every failure up to the longest one,** as if nothing else were ever cut. -/
theorem backoff_eq (base attempt : Nat) : backoff base attempt = min (base * 2 ^ (attempt - 1)) maxBackoff := by
  have hduration : min maxDuration maxBackoff = maxBackoff := by decide
  have hfactor : maxBackoff ≤ 2 ^ 32 - 1 := by decide
  rw [backoff, Nat.min_assoc, hduration, doubling_eq, min_mul_min hfactor]

variable {base attempt : Nat}

theorem backoff_le (base attempt : Nat) : backoff base attempt ≤ maxBackoff := Nat.min_le_right _ _

theorem backoff_eq_zero_iff : backoff base attempt = 0 ↔ base = 0 := by
  have hpow : 0 < 2 ^ (attempt - 1) := Nat.two_pow_pos _
  have hcap : 0 < maxBackoff := by decide
  rw [backoff_eq]
  constructor
  · intro h
    by_contra hbase
    have hproduct : 0 < base * 2 ^ (attempt - 1) := Nat.mul_pos (Nat.pos_of_ne_zero hbase) hpow
    exact Nat.ne_of_gt (Nat.lt_min.2 ⟨hproduct, hcap⟩) h
  · rintro rfl
    rw [Nat.zero_mul, Nat.zero_min]

theorem backoff_mono_attempt (base : Nat) : Monotone (backoff base) := by
  intro attempt attempt' h
  rw [backoff_eq, backoff_eq]
  gcongr
  exact one_le_two

theorem backoff_mono_base (attempt : Nat) : Monotone fun base => backoff base attempt := by
  intro base base' h
  dsimp only
  rw [backoff_eq, backoff_eq]
  gcongr

/-! ## Settings -/

theorem Settings.baseDelay_lt {vars : Lookup} {s : Settings} (hs : ofLookup vars = .ok s) {maxAttempts : UInt32}
    (hretry : s.policy = .retry maxAttempts base) : base < 2 ^ 64 := by
  have hpolicy := (ofLookup_eq_ok_iff.1 hs).2.policy
  rw [hretry] at hpolicy
  cases hpolicy with
  | retry _ _ _ hbase => exact hbase.lt

/-- **The delay after so many failures in a row** is the first one doubled with every further failure, and never more
than thirty seconds, whatever is cut on the way; more failures or a longer first delay never make it shorter, and only
a first delay of nothing makes it nothing. First delays that settings hold fit 64 bits, and a run with these settings
waits so long after each failure before the last one. -/
theorem backoff_doubles_to_cap :
    (∀ base attempt : Nat,
        backoff base attempt = min (base * 2 ^ (attempt - 1)) 30000 ∧
          doubling (attempt - 1) = min (2 ^ (attempt - 1)) (2 ^ 32 - 1) ∧ backoff base attempt ≤ 30000 ∧
          (backoff base attempt = 0 ↔ base = 0)) ∧
      (∀ base, Monotone (backoff base)) ∧ (∀ attempt, Monotone fun base => backoff base attempt) ∧
      ∀ (vars : Settings.Lookup) (s : Settings), Settings.ofLookup vars = .ok s →
        ∀ maxAttempts base, s.consumer.policy = .retry maxAttempts base →
          base < 2 ^ 64 ∧
            ∀ failures, s.consumer.policy.delay? failures =
              if failures < maxAttempts.toNat then some (min (base * 2 ^ (failures - 1)) 30000) else none := by
  refine ⟨fun base attempt => ⟨backoff_eq base attempt, doubling_eq _, backoff_le base attempt, backoff_eq_zero_iff⟩,
    backoff_mono_attempt, backoff_mono_base, fun vars s hs maxAttempts base hretry => ?_⟩
  refine ⟨Settings.baseDelay_lt hs hretry, fun failures => ?_⟩
  rw [hretry, ReadPolicy.delay?, backoff_eq]
  rfl

example : (List.range' 1 5).map (backoff 500) = [500, 1000, 2000, 4000, 8000] := by decide

/-- two delays and then none -/
theorem backoff_doubles_to_cap_retrying :
    ∃ s, Settings.ofLookup Settings.retrying = .ok s ∧
      [1, 2, 3].map s.consumer.policy.delay? = [some 500, some 1000, none] := by
  obtain ⟨s, hs, hpolicy⟩ := Settings.ofLookup_retrying
  obtain ⟨-, -, -, hsettings⟩ := backoff_doubles_to_cap
  obtain ⟨-, hdelays⟩ := hsettings Settings.retrying s hs 3 500 hpolicy
  refine ⟨s, hs, ?_⟩
  simp only [List.map_cons, List.map_nil, hdelays]
  decide

end ReplicatedOrders
