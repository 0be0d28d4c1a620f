/-
Decimal digits: what the printer of natural numbers writes, and that the readers of numerals give the number back.

`Numeral.decimal` is the list of digits, most significant first.
- `toList_toString`: a number is written as its digits.
- `parseBounded_toString`, `parseLong_toString`: reading a written number gives it back.
- `EntryId.parse?_text`: so does reading a written id.
-/
import Mathlib.Tactic
import ReplicatedOrders.EntryId

namespace ReplicatedOrders

namespace Numeral

/-- the decimal digits of a number, most significant first -/
def decimal (n : Nat) : List Nat := if n < 10 then [n] else decimal (n / 10) ++ [n % 10]

theorem decimal_of_lt {n : Nat} (h : n < 10) : decimal n = [n] := by
  rw [decimal, if_pos h]

theorem decimal_of_le {n : Nat} (h : 10 ≤ n) : decimal n = decimal (n / 10) ++ [n % 10] := by
  rw [decimal, if_neg (by omega)]

theorem lt_of_mem_decimal {n d : Nat} (h : d ∈ decimal n) : d < 10 := by
  induction n using Nat.strongRecOn with
  | ind n ih =>
    by_cases hn : n < 10
    · rw [decimal_of_lt hn, List.mem_singleton] at h
      omega
    · rw [decimal_of_le (by omega), List.mem_append, List.mem_singleton] at h
      rcases h with h | h
      · exact ih (n / 10) (by omega) h
      · omega

theorem ofDigits_decimal (n : Nat) : ofDigits 10 (decimal n) = n := by
  induction n using Nat.strongRecOn with
  | ind n ih =>
    by_cases hn : n < 10
    · rw [decimal_of_lt hn]
      simp [ofDigits]
    · have hq := ih (n / 10) (by omega)
      unfold ofDigits at hq ⊢
      rw [decimal_of_le (by omega), List.foldl_append, hq]
      simp only [List.foldl_cons, List.foldl_nil]
      omega

/-- only zero begins with a zero -/
theorem decimal_head (n : Nat) : ∃ d ds, decimal n = d :: ds ∧ (d = 0 → n = 0 ∧ ds = []) := by
  induction n using Nat.strongRecOn with
  | ind n ih =>
    by_cases hn : n < 10
    · exact ⟨n, [], decimal_of_lt hn, fun h => ⟨h, rfl⟩⟩
    · obtain ⟨d, ds, hd, hz⟩ := ih (n / 10) (by omega)
      refine ⟨d, ds ++ [n % 10], by rw [decimal_of_le (by omega), hd, List.cons_append], fun h => ?_⟩
      have := (hz h).1
      omega

/-- a number is written as its digits -/
theorem toList_toString (n : Nat) : (toString n).toList = (decimal n).map Nat.digitChar := by
  show n.repr.toList = _
  rw [Nat.toList_repr]
  induction n using Nat.strongRecOn with
  | ind n ih =>
    by_cases hn : n < 10
    · rw [Nat.toDigits_of_lt_base hn, decimal_of_lt hn, List.map_singleton]
    · rw [Nat.toDigits_of_base_le (by omega) (by omega), ih (n / 10) (by omega), decimal_of_le (n := n) (by omega),
        List.map_append, List.map_singleton]

/-- a digit is read as itself -/
theorem digitIn_digitChar {d : Nat} (h : d < 10) : digitIn 10 (Nat.digitChar d) = some d := by
  have : ∀ m : Fin 10, digitIn 10 (Nat.digitChar m.val) = some m.val := by decide
  exact this ⟨d, h⟩

/-- only the digits are read as digits -/
theorem digitIn_eq_some {c : Char} {d : Nat} (h : digitIn 10 c = some d) : d < 10 ∧ c = Nat.digitChar d := by
  obtain ⟨hd, hlt⟩ := Option.filter_eq_some_iff.1 h
  have hlt : d < 10 := by simpa using hlt
  have hbound : ∀ x y : Char, x ≤ y → x.toNat ≤ y.toNat := fun x y hxy => UInt32.le_iff_toNat_le.1 hxy
  have hdigit : ∀ m : Fin 10, Char.ofNat (48 + m.val) = Nat.digitChar m.val := by decide
  refine ⟨hlt, ?_⟩
  unfold digitOf at hd
  split_ifs at hd with hnumber hlower hupper
  · have hlow : 48 ≤ c.toNat := hbound '0' c hnumber.1
    have hvalue : 48 + d = c.toNat := by
      have := Option.some.inj hd
      omega
    rw [← hdigit ⟨d, hlt⟩, hvalue, Char.ofNat_toNat]
  · have hlow : 97 ≤ c.toNat := hbound 'a' c hlower.1
    have := Option.some.inj hd
    omega
  · have hlow : 65 ≤ c.toNat := hbound 'A' c hupper.1
    have := Option.some.inj hd
    omega

theorem digitChar_ne {d : Nat} (h : d < 10) :
    Nat.digitChar d ≠ '+' ∧ Nat.digitChar d ≠ '_' ∧ Nat.digitChar d ≠ '-' := by
  have : ∀ m : Fin 10, Nat.digitChar m.val ≠ '+' ∧ Nat.digitChar m.val ≠ '_' ∧ Nat.digitChar m.val ≠ '-' := by decide
  exact this ⟨d, h⟩

/-! ## Reading -/

theorem le_foldl_digits (v : Nat) (ds : List Nat) : v ≤ ds.foldl (fun v d => 10 * v + d) v := by
  induction ds generalizing v with
  | nil => exact Nat.le_refl v
  | cons d ds ih => exact Nat.le_trans (by omega) (ih (10 * v + d))

theorem readBounded_digits {limit v : Nat} {ds : List Nat} (hd : ∀ d ∈ ds, d < 10)
    (h : ds.foldl (fun v d => 10 * v + d) v < limit) :
    readBounded limit v (ds.map Nat.digitChar) = .ok (ds.foldl (fun v d => 10 * v + d) v) := by
  induction ds generalizing v with
  | nil => rfl
  | cons d ds ih =>
    have hlt : 10 * v + d < limit := Nat.lt_of_le_of_lt (le_foldl_digits _ ds) h
    rw [List.map_cons, readBounded, digitIn_digitChar (hd d List.mem_cons_self)]
    simp only [if_pos hlt]
    exact ih (fun d' hd' => hd d' (List.mem_cons_of_mem d hd')) h

theorem parseBounded_toString {limit n : Nat} (h : n < limit) : parseBounded limit (toString n) = .ok n := by
  obtain ⟨d, ds, hds, -⟩ := decimal_head n
  have hd : ∀ d ∈ decimal n, d < 10 := fun d => lt_of_mem_decimal
  have hval : (decimal n).foldl (fun v d => 10 * v + d) 0 = n := ofDigits_decimal n
  have hread := readBounded_digits (v := 0) hd (by rw [hval]; exact h)
  have hplus := (digitChar_ne (hd d (by rw [hds]; exact List.mem_cons_self))).1
  unfold parseBounded
  rw [toList_toString]
  rw [hval] at hread
  rw [hds, List.map_cons] at hread ⊢
  split
  · next heq => cases heq
  · next heq => exact absurd (List.cons.inj heq).1 hplus
  · exact hread

theorem longDigits_digits {ds : List Nat} (hd : ∀ d ∈ ds, d < 10) :
    longDigits 10 (ds.map Nat.digitChar) = some ds := by
  induction ds with
  | nil => rfl
  | cons d ds ih =>
    have hd0 := hd d List.mem_cons_self
    rw [List.map_cons, longDigits, if_neg (digitChar_ne hd0).2.1, digitIn_digitChar hd0,
      ih fun d' hd' => hd d' (List.mem_cons_of_mem d hd')]
    rfl

theorem parseLong_toString (n : Nat) : parseLong 10 (toString n) = .ok n := by
  obtain ⟨d, ds, hds, -⟩ := decimal_head n
  have hd : ∀ d ∈ decimal n, d < 10 := fun d => lt_of_mem_decimal
  obtain ⟨hplus, hunder, -⟩ := digitChar_ne (hd d (by rw [hds]; exact List.mem_cons_self))
  have hlong := longDigits_digits hd
  have hdrop : dropPlus ((decimal n).map Nat.digitChar) = (decimal n).map Nat.digitChar := by
    rw [hds, List.map_cons, dropPlus.eq_3]
    · intro cs h; exact hplus (List.cons.inj h).1
    · intro cs h; exact hplus (List.cons.inj h).1
  unfold parseLong
  rw [toList_toString, hdrop]
  split
  · next heq => rw [hds] at heq; cases heq
  · next heq => rw [hds, List.map_cons] at heq; exact absurd (List.cons.inj heq).1 hunder
  · rw [hlong]
    exact congrArg Except.ok (ofDigits_decimal n)

theorem toString_injective {m n : Nat} (h : toString m = toString n) : m = n := by
  have hread := congrArg (parseLong 10) h
  rw [parseLong_toString, parseLong_toString] at hread
  exact Except.ok.inj hread

end Numeral

namespace EntryId

theorem parsePart_toString (w : UInt64) : parsePart (toString w.toNat).toList = some w := by
  rw [parsePart, String.ofList_toList, Numeral.parseBounded_toString w.toNat_lt]
  exact congrArg some UInt64.ofNat_toNat

/-- reading a written id gives it back -/
theorem parse?_text (id : EntryId) : parse? id.text = some id := by
  have hcut : Text.cutAt '-' id.text.toList =
      ((toString id.millis.toNat).toList, some (toString id.seq.toNat).toList) := by
    have hminus : '-' ∉ (toString id.millis.toNat).toList := by
      rw [Numeral.toList_toString]
      intro h
      obtain ⟨d, hd, hc⟩ := List.mem_map.1 h
      exact (Numeral.digitChar_ne (Numeral.lt_of_mem_decimal hd)).2.2 hc
    rw [← Text.cutAt_append hminus]
    simp [text, String.toList_append]
  rw [parse?, hcut]
  simp only [parsePart_toString]
  rfl

end EntryId

end ReplicatedOrders
