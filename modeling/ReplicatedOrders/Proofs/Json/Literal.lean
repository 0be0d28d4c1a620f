/-
Literals: the scanner reads the text of a number as one token.

`Literal.Spelling` is how a literal may be written, and `Literal.chars` is one way to do so. A number ends where the
text ends or goes on with a character that no number goes on with.
- `Literal.lexFrom_spelling`: the text of a literal is read as the number that the literal denotes.
- `lexFrom_whole`: a written whole number is read as itself.
-/
import Mathlib.Tactic
import ReplicatedOrders.Json.Compact
import ReplicatedOrders.Proofs.Decimal

namespace ReplicatedOrders.Json

/-! ## Literals as text -/

/-- digits as they stand before the point: at least one, and no needless zero in front -/
structure Leading (ds : List Nat) : Prop where
  ne : ds ≠ []
  lt : ∀ d ∈ ds, d < 10
  head : ∀ ds', ds = 0 :: ds' → ds' = []

namespace Leading

theorem decimal (n : Nat) : Leading (Numeral.decimal n) := by
  obtain ⟨d, ds, hds, hz⟩ := Numeral.decimal_head n
  refine ⟨by simp [hds], fun d => Numeral.lt_of_mem_decimal, ?_⟩
  intro ds' heq
  obtain ⟨rfl, rfl⟩ := List.cons.inj (hds.symm.trans heq)
  exact (hz rfl).2

theorem singleton {d : Nat} (h : d < 10) : Leading [d] := by
  refine ⟨by simp, by simpa using h, ?_⟩
  intro ds' heq
  exact (List.cons.inj heq).2.symm

theorem take {ds : List Nat} (h : Leading ds) {n : Nat} (hpos : 0 < n) (hn : n < ds.length) : Leading (ds.take n) := by
  obtain ⟨d, tail, rfl⟩ := List.exists_cons_of_ne_nil h.ne
  obtain ⟨m, rfl⟩ := Nat.exists_eq_succ_of_ne_zero (Nat.pos_iff_ne_zero.1 hpos)
  refine ⟨by simp, fun d hd => h.lt d (List.mem_of_mem_take hd), ?_⟩
  intro ds' heq
  rw [List.take_succ_cons] at heq
  obtain ⟨rfl, rfl⟩ := List.cons.inj heq
  rw [h.head tail rfl, List.take_nil]

theorem append_zeros {ds : List Nat} (h : Leading ds) {n : Nat} (hn : ds = [0] → n = 0) :
    Leading (ds ++ List.replicate n 0) := by
  refine ⟨by simp [h.ne], ?_, ?_⟩
  · intro d hd
    rcases List.mem_append.1 hd with hd | hd
    · exact h.lt d hd
    · rw [(List.mem_replicate.1 hd).2]
      exact Nat.succ_pos 9
  · intro ds' heq
    obtain ⟨d, tail, rfl⟩ := List.exists_cons_of_ne_nil h.ne
    obtain ⟨rfl, rfl⟩ := List.cons.inj heq
    obtain rfl := h.head tail rfl
    rw [hn rfl]
    rfl

end Leading

namespace Literal

/-- digits stand wherever some have to stand -/
structure WellFormed (l : Literal) : Prop where
  whole : Leading l.whole
  fraction_lt : ∀ d ∈ l.fraction, d < 10
  exponent : ∀ e ∈ l.exponent, e.2 ≠ [] ∧ ∀ d ∈ e.2, d < 10

def signChars (negative : Bool) : List Char := if negative then ['-'] else []

def fractionChars (fraction : List Nat) : List Char :=
  if fraction = [] then [] else '.' :: fraction.map Nat.digitChar

/-- an exponent that is not negative may have a plus sign -/
def exponentChars (plus : Bool) : Option (Bool × List Nat) → List Char
  | none => []
  | some (down, ds) => 'e' :: ((if down then ['-'] else if plus then ['+'] else []) ++ ds.map Nat.digitChar)

def chars (plus : Bool) (l : Literal) : List Char :=
  signChars l.negative ++ l.whole.map Nat.digitChar ++ fractionChars l.fraction ++ exponentChars plus l.exponent

/-- what may stand between the mark of an exponent and its digits -/
inductive ExponentSign : Bool → List Char → Prop where
  | none : ExponentSign false []
  | plus : ExponentSign false ['+']
  | minus : ExponentSign true ['-']

/-- how an exponent may be written -/
inductive ExponentSpelling : Option (Bool × List Nat) → List Char → Prop where
  | none : ExponentSpelling none []
  | some {mark : Char} {down : Bool} {sign : List Char} (ds : List Nat) (hmark : mark = 'e' ∨ mark = 'E')
    (hsign : ExponentSign down sign) : ExponentSpelling (some (down, ds)) (mark :: (sign ++ ds.map Nat.digitChar))

/-- a literal up to its exponent -/
def mantissa (l : Literal) : List Char :=
  signChars l.negative ++ l.whole.map Nat.digitChar ++ fractionChars l.fraction

/-- how a literal may be written -/
inductive Spelling (l : Literal) : List Char → Prop where
  | intro {exponent : List Char} (h : l.WellFormed) (he : ExponentSpelling l.exponent exponent) :
    Spelling l (l.mantissa ++ exponent)

/-- without exponent -/
theorem spelling_mantissa {l : Literal} (h : l.WellFormed) (hnone : l.exponent = none) : l.Spelling l.mantissa := by
  have hspelling : l.Spelling (l.mantissa ++ []) := .intro h (by rw [hnone]; exact .none)
  rwa [List.append_nil] at hspelling

theorem spelling_chars {l : Literal} (h : l.WellFormed) (plus : Bool) : l.Spelling (l.chars plus) := by
  refine .intro h ?_
  cases l.exponent with
  | none => exact .none
  | some e =>
    obtain ⟨down, ds⟩ := e
    cases down with
    | true => exact .some ds (Or.inl rfl) .minus
    | false =>
      cases plus with
      | true => exact .some ds (Or.inl rfl) .plus
      | false => exact .some ds (Or.inl rfl) .none

end Literal

/-! ## The end of a number -/

/-- no number goes on here -/
def Stops (rest : List Char) : Prop :=
  ∀ c cs, rest = c :: cs → Numeral.digitIn 10 c = none ∧ c ≠ '.' ∧ c ≠ 'e' ∧ c ≠ 'E'

theorem Stops.nil : Stops [] := by
  intro c cs h
  cases h

theorem lexFrom_numberEnd {n : NumberScan} (hn : n.complete = true) {rest : List Char} (hr : Stops rest) :
    lexFrom (.number n) rest = n.token :: lexFrom .gap rest := by
  cases rest with
  | nil => rfl
  | cons c cs =>
    obtain ⟨hdigit, hpoint, hmark, hcapital⟩ := hr c cs rfl
    have hother : n.other c = none := by
      unfold NumberScan.complete at hn
      unfold NumberScan.other
      split <;> simp_all
    have hnext : n.next c = none := by rw [NumberScan.next, hdigit]; exact hother
    simp [lexFrom, feed, hnext, hn]

/-! ## The parts of a number -/

theorem lexFrom_next {n n' : NumberScan} {c : Char} (h : n.next c = some n') (rest : List Char) :
    lexFrom (.number n) (c :: rest) = lexFrom (.number n') rest := by
  rw [lexFrom, feed, h]
  rfl

theorem next_digitChar (n : NumberScan) {d : Nat} (h : d < 10) : n.next (Nat.digitChar d) = n.digit d := by
  rw [NumberScan.next, Numeral.digitIn_digitChar h]

/-- digits go one after the other to the part that takes them -/
theorem lexFrom_digits (part : List Nat → NumberScan) (hpart : ∀ acc d, (part acc).digit d = some (part (d :: acc)))
    {ds : List Nat} (hd : ∀ d ∈ ds, d < 10) (acc : List Nat) (rest : List Char) :
    lexFrom (.number (part acc)) (ds.map Nat.digitChar ++ rest) =
      lexFrom (.number (part (ds.reverse ++ acc))) rest := by
  induction ds generalizing acc with
  | nil => rfl
  | cons d ds ih =>
    have hnext : (part acc).next (Nat.digitChar d) = some (part (d :: acc)) := by
      rw [next_digitChar _ (hd d List.mem_cons_self), hpart]
    rw [List.map_cons, List.cons_append, lexFrom_next hnext, ih fun d' hd' => hd d' (List.mem_cons_of_mem d hd'),
      List.reverse_cons, List.append_assoc, List.singleton_append]

theorem begin_digit {d : Nat} (h : d < 10) :
    begin (Nat.digitChar d) = ([], .number { part := if d = 0 then .zero else .whole, whole := [d] }) := by
  have : ∀ m : Fin 10, begin (Nat.digitChar m.val) =
      ([], .number { part := if m.val = 0 then .zero else .whole, whole := [m.val] }) := by decide
  exact this ⟨d, h⟩

namespace Literal

/-- the scan after the whole part -/
def wholeScan (l : Literal) : NumberScan :=
  { part := if l.whole = [0] then .zero else .whole, negative := l.negative, whole := l.whole.reverse }

/-- the sign and the whole part -/
theorem lexFrom_whole {l : Literal} (h : l.WellFormed) (rest : List Char) :
    lexFrom .gap (signChars l.negative ++ (l.whole.map Nat.digitChar ++ rest)) =
      lexFrom (.number l.wholeScan) rest := by
  obtain ⟨d, ds, hw⟩ := List.exists_cons_of_ne_nil h.whole.ne
  have hlt : ∀ x ∈ d :: ds, x < 10 := hw ▸ h.whole.lt
  have hd := hlt d List.mem_cons_self
  have hfirst : lexFrom .gap (signChars l.negative ++ (l.whole.map Nat.digitChar ++ rest)) =
      lexFrom (.number { part := if d = 0 then .zero else .whole, negative := l.negative, whole := [d] })
        (ds.map Nat.digitChar ++ rest) := by
    rw [hw, List.map_cons]
    cases l.negative with
    | false =>
      show lexFrom .gap (Nat.digitChar d :: (ds.map Nat.digitChar ++ rest)) = _
      rw [lexFrom, feed, begin_digit hd]
      rfl
    | true =>
      refine lexFrom_next (n := { part := .minus, negative := true }) ?_ _
      rw [next_digitChar _ hd]
      rfl
  rw [hfirst, wholeScan, hw]
  by_cases hzero : d = 0
  · subst hzero
    rw [h.whole.head ds hw]
    rfl
  · have hne : ¬ d :: ds = [0] := fun heq => hzero (List.cons.inj heq).1
    rw [if_neg hzero, if_neg hne]
    have hdigits := lexFrom_digits (fun acc => { part := .whole, negative := l.negative, whole := acc })
      (fun _ _ => rfl) (fun x hx => hlt x (List.mem_cons_of_mem d hx)) [d] rest
    rw [hdigits, List.reverse_cons]

theorem wholeScan_part (l : Literal) : l.wholeScan.part = .zero ∨ l.wholeScan.part = .whole := by
  unfold wholeScan
  split <;> simp

/-- the scan after the fraction -/
def fractionScan (l : Literal) : NumberScan :=
  if l.fraction = [] then l.wholeScan
  else { l.wholeScan with part := .fraction, fraction := l.fraction.reverse }

theorem lexFrom_fraction {l : Literal} (h : l.WellFormed) (rest : List Char) :
    lexFrom (.number l.wholeScan) (fractionChars l.fraction ++ rest) = lexFrom (.number l.fractionScan) rest := by
  unfold fractionChars fractionScan
  split
  · rfl
  · next hne =>
    obtain ⟨d, ds, hf⟩ := List.exists_cons_of_ne_nil hne
    have hlt : ∀ x ∈ d :: ds, x < 10 := hf ▸ h.fraction_lt
    have hpoint : l.wholeScan.next '.' = some { l.wholeScan with part := .point } := by
      have hno : Numeral.digitIn 10 '.' = none := by decide
      rw [NumberScan.next, hno]
      unfold NumberScan.other
      rcases l.wholeScan_part with hp | hp <;> simp [hp]
    have hfirst : ({ l.wholeScan with part := .point } : NumberScan).next (Nat.digitChar d) =
        some { l.wholeScan with part := .fraction, fraction := [d] } := by
      rw [next_digitChar _ (hlt d List.mem_cons_self)]
      rfl
    have hdigits := lexFrom_digits (fun acc => { l.wholeScan with part := .fraction, fraction := acc })
      (fun _ _ => rfl) (fun x hx => hlt x (List.mem_cons_of_mem d hx)) [d] rest
    rw [hf, List.cons_append, lexFrom_next hpoint, List.map_cons, List.cons_append, lexFrom_next hfirst, hdigits,
      List.reverse_cons]

theorem fractionScan_part (l : Literal) :
    l.fractionScan.part = .zero ∨ l.fractionScan.part = .whole ∨ l.fractionScan.part = .fraction := by
  unfold fractionScan
  split
  · rcases l.wholeScan_part with h | h <;> simp [h]
  · simp

theorem fractionScan_blank (l : Literal) : l.fractionScan.exponent = [] ∧ l.fractionScan.down = false := by
  unfold fractionScan
  split <;> exact ⟨rfl, rfl⟩

/-- the scan after the exponent -/
def scan (l : Literal) : NumberScan :=
  match l.exponent with
  | none => l.fractionScan
  | some (down, ds) => { l.fractionScan with part := .exponent, down, exponent := ds.reverse }

/-- the digits of an exponent, after its mark or its sign -/
theorem lexFrom_exponentDigits {n : NumberScan} (hp : n.part = .mark ∨ n.part = .sign) (he : n.exponent = [])
    {ds : List Nat} (hne : ds ≠ []) (hlt : ∀ d ∈ ds, d < 10) (rest : List Char) :
    lexFrom (.number n) (ds.map Nat.digitChar ++ rest) =
      lexFrom (.number { n with part := .exponent, exponent := ds.reverse }) rest := by
  obtain ⟨d, ds, rfl⟩ := List.exists_cons_of_ne_nil hne
  have hfirst : n.next (Nat.digitChar d) = some { n with part := .exponent, exponent := [d] } := by
    rw [next_digitChar _ (hlt d List.mem_cons_self), NumberScan.digit]
    rcases hp with hp | hp <;> simp [hp, he]
  have hdigits := lexFrom_digits (fun acc => { n with part := .exponent, exponent := acc })
    (fun _ _ => rfl) (fun x hx => hlt x (List.mem_cons_of_mem d hx)) [d] rest
  rw [List.map_cons, List.cons_append, lexFrom_next hfirst, hdigits, List.reverse_cons]

theorem lexFrom_exponent {l : Literal} (h : l.WellFormed) {cs : List Char} (he : ExponentSpelling l.exponent cs)
    (rest : List Char) : lexFrom (.number l.fractionScan) (cs ++ rest) = lexFrom (.number l.scan) rest := by
  obtain ⟨negative, whole, fraction, exponent⟩ := l
  cases he with
  | none => rfl
  | @some mark down sign ds hmark hsign =>
    obtain ⟨hne, hlt⟩ := h.exponent (down, ds) rfl
    generalize hn : fractionScan ⟨negative, whole, fraction, some (down, ds)⟩ = n
    have hpart : n.part = .zero ∨ n.part = .whole ∨ n.part = .fraction := hn ▸ fractionScan_part _
    have hblank : n.exponent = [] ∧ n.down = false := hn ▸ fractionScan_blank _
    have hmarked : n.next mark = some { n with part := .mark } := by
      have hno : Numeral.digitIn 10 mark = none := by rcases hmark with rfl | rfl <;> decide
      rw [NumberScan.next, hno]
      unfold NumberScan.other
      rcases hmark with rfl | rfl <;> rcases hpart with hp | hp | hp <;> simp [hp]
    simp only [scan, hn, List.cons_append, List.append_assoc]
    rw [lexFrom_next hmarked]
    obtain ⟨part, negative, whole, fraction, down, exponent⟩ := n
    obtain ⟨rfl, rfl⟩ := hblank
    cases hsign with
    | none => exact lexFrom_exponentDigits (Or.inl rfl) rfl hne hlt rest
    | plus =>
      exact lexFrom_exponentDigits (n := ⟨.sign, negative, whole, fraction, false, []⟩) (Or.inr rfl) rfl hne hlt rest
    | minus =>
      exact lexFrom_exponentDigits (n := ⟨.sign, negative, whole, fraction, true, []⟩) (Or.inr rfl) rfl hne hlt rest

theorem complete_scan (l : Literal) : l.scan.complete = true := by
  unfold scan
  split
  · unfold NumberScan.complete
    rcases l.fractionScan_part with hp | hp | hp <;> simp [hp]
  · rfl

theorem literal_scan (l : Literal) : l.scan.literal = l := by
  obtain ⟨negative, whole, fraction, exponent⟩ := l
  by_cases hf : fraction = [] <;> by_cases hw : whole = [0] <;> cases exponent <;>
    simp [scan, fractionScan, wholeScan, NumberScan.literal, hf, hw]

/-- **The text of a literal is read as the number that the literal denotes.** -/
theorem lexFrom_spelling {l : Literal} {cs : List Char} (h : l.Spelling cs) {rest : List Char} (hr : Stops rest) :
    lexFrom .gap (cs ++ rest) = .number l.number? :: lexFrom .gap rest := by
  obtain ⟨hl, he⟩ := h
  have htoken : l.scan.token = .number l.number? := by
    rw [NumberScan.token, if_pos l.complete_scan, literal_scan]
  simp only [mantissa, List.append_assoc]
  rw [lexFrom_whole hl, lexFrom_fraction hl, lexFrom_exponent hl he, lexFrom_numberEnd l.complete_scan hr, htoken]

theorem lexFrom_chars {l : Literal} (h : l.WellFormed) (plus : Bool) {rest : List Char} (hr : Stops rest) :
    lexFrom .gap (l.chars plus ++ rest) = .number l.number? :: lexFrom .gap rest :=
  lexFrom_spelling (spelling_chars h plus) hr

end Literal

/-! ## Whole numbers -/

/-- digits alone are a literal -/
theorem Leading.wellFormed {ds : List Nat} (h : Leading ds) (negative : Bool) :
    Literal.WellFormed ⟨negative, ds, [], none⟩ :=
  ⟨h, by simp, by simp⟩

/-- an integer is written as its sign and its digits -/
theorem toList_toString_int (i : Int) :
    (toString i).toList = Literal.signChars (i < 0) ++ (Numeral.decimal i.natAbs).map Nat.digitChar := by
  rw [← Numeral.toList_toString]
  cases i with
  | ofNat n => rfl
  | negSucc n =>
    rw [decide_eq_true (Int.negSucc_lt_zero n)]
    show ("-" ++ toString (n + 1)).toList = '-' :: (toString (n + 1)).toList
    rw [String.toList_append]
    rfl

namespace Whole

/-- the literal of a whole number -/
def literal (m : Whole) : Literal := ⟨m.val < 0, Numeral.decimal m.val.natAbs, [], none⟩

theorem toList_toString (m : Whole) (plus : Bool) : (toString m.val).toList = m.literal.chars plus := by
  rw [toList_toString_int]
  simp [Literal.chars, literal, Literal.fractionChars, Literal.exponentChars]

theorem number?_literal (m : Whole) : m.literal.number? = some (.whole m) := by
  have hint : Number.ofInt? m.val = some (.whole m) := by
    rw [Number.ofInt?, dif_pos ⟨m.lower, m.upper⟩]
  have hwhole : m.literal.whole? = some (.whole m) := by
    simp only [Literal.whole?, literal, Numeral.ofDigits_decimal]
    by_cases hneg : m.val < 0
    · have hval : -(m.val.natAbs : Int) = m.val := by omega
      have hne : ¬ m.val.natAbs = 0 := by omega
      rw [decide_eq_true hneg, if_pos rfl, if_neg hne, hval, hint]
    · have hval : (m.val.natAbs : Int) = m.val := by omega
      rw [decide_eq_false hneg, if_neg Bool.false_ne_true, hval, hint]
  rw [Literal.number?, hwhole]
  rfl

end Whole

/-- a written whole number is read as one token -/
theorem lexFrom_whole (m : Whole) {rest : List Char} (hr : Stops rest) :
    lexFrom .gap ((toString m.val).toList ++ rest) = .number (some (.whole m)) :: lexFrom .gap rest := by
  have hlex := Literal.lexFrom_chars (l := m.literal) ((Leading.decimal _).wellFormed _) false hr
  rw [m.toList_toString false, hlex, m.number?_literal]

end ReplicatedOrders.Json

/-! ## Real numbers -/

namespace ReplicatedOrders.Binary64

open Json

theorem Interval.ne_zero_of_pick {i : Interval} {k : Int} {c : Nat} (h : i.pick k = some c) : c ≠ 0 := by
  simp only [pick] at h
  split at h
  · next hlow _ =>
    have hne := (Bool.and_eq_true_iff.1 hlow).2
    split_ifs at h <;> cases h <;> simp_all
  · next hlow _ =>
    cases h
    simpa using (Bool.and_eq_true_iff.1 hlow).2
  · cases h
    exact Nat.succ_ne_zero _
  · cases h

/-- a search that finds no digits has gone down all the steps, and the number is below one -/
theorem Interval.search_digits {i : Interval} {steps : Nat} {k : Int} (h : (i.search steps k).digits = 0) :
    i.value / i.den = 0 ∧ (i.search steps k).power = k - steps := by
  induction steps generalizing k with
  | zero => exact ⟨h, by simp [search]⟩
  | succ steps ih =>
    rw [search] at h ⊢
    split at h
    · next c hpick => exact absurd h (ne_zero_of_pick hpick)
    · next hpick =>
      obtain ⟨hvalue, hpower⟩ := ih h
      exact ⟨hvalue, by rw [hpower]; push_cast; omega⟩

/-- a number whose shortest decimal has no digits is zero, or its power of ten is far below one -/
theorem shortest_digits {x : Binary64} (hx : x.significand ≠ 0) (h : x.shortest.digits = 0) :
    x.shortest.power ≤ -23 := by
  simp only [shortest, if_neg hx] at h ⊢
  obtain ⟨hvalue, hpower⟩ := Interval.search_digits h
  have hden : 0 < 4 * 2 ^ (-x.exponent).toNat := by positivity
  have hlt : 4 * x.significand * 2 ^ x.exponent.toNat < 4 * 2 ^ (-x.exponent).toNat :=
    (Nat.div_eq_zero_iff_lt hden).1 hvalue
  have hup : x.significand ≤ x.significand * 2 ^ x.exponent.toNat :=
    Nat.le_mul_of_pos_right _ (by positivity)
  have hsig : x.significand < 2 ^ (-x.exponent).toNat := by
    rw [Nat.mul_assoc] at hlt
    omega
  have hlog : Nat.log2 x.significand < (-x.exponent).toNat := (Nat.log2_lt hx).2 hsig
  have hbound : x.decimalBound ≤ 1 := by
    unfold decimalBound
    omega
  rw [hpower]
  push_cast
  omega

/-- written zeros -/
theorem zeros_eq (n : Int) : zeros n = (List.replicate n.toNat 0).map Nat.digitChar := by
  rw [List.map_replicate]
  rfl

/-- a positional decimal is a literal, if digits without a value are not filled up with zeros -/
theorem positional_literal {ds : List Nat} (h : Leading ds) {p : Int} (hp : ds = [0] → p ≤ 1) (negative : Bool) :
    ∃ l : Literal, l.WellFormed ∧
      Literal.signChars negative ++ positional (ds.map Nat.digitChar) p = l.chars false := by
  unfold positional
  split_ifs with hsmall hlarge
  · refine ⟨⟨negative, [0], List.replicate (-p).toNat 0 ++ ds, none⟩, ⟨.singleton (by omega), ?_, by simp⟩, ?_⟩
    · intro d hd
      rcases List.mem_append.1 hd with hd | hd
      · rw [(List.mem_replicate.1 hd).2]
        exact Nat.succ_pos 9
      · exact h.lt d hd
    · simp [Literal.chars, Literal.fractionChars, Literal.exponentChars, zeros_eq, h.ne]
  · rw [List.length_map] at hlarge
    have hfilled : ds = [0] → (p - ds.length).toNat = 0 := by
      rintro rfl
      have := hp rfl
      simp
      omega
    refine ⟨⟨negative, ds ++ List.replicate (p - ds.length).toNat 0, [0], none⟩,
      ⟨h.append_zeros hfilled, by simp, by simp⟩, ?_⟩
    simp [Literal.chars, Literal.fractionChars, Literal.exponentChars, zeros_eq]
  · rw [List.length_map] at hlarge
    refine ⟨⟨negative, ds.take p.toNat, ds.drop p.toNat, none⟩,
      ⟨h.take (by omega) (by omega), fun d hd => h.lt d (List.mem_of_mem_drop hd), by simp⟩, ?_⟩
    have hdrop : ds.drop p.toNat ≠ [] := by
      simp
      omega
    simp [Literal.chars, Literal.fractionChars, Literal.exponentChars, hdrop, List.map_take, List.map_drop]

/-- a scientific decimal is a literal -/
theorem scientific_literal {ds : List Nat} (h : Leading ds) (plus : Bool) (p : Int) (negative : Bool) :
    ∃ l : Literal, ∃ plus', l.WellFormed ∧
      Literal.signChars negative ++ scientific plus (ds.map Nat.digitChar) p = l.chars plus' := by
  obtain ⟨d, ds, rfl⟩ := List.exists_cons_of_ne_nil h.ne
  have hexponent : 'e' :: (if plus && 0 < p - 1 then ['+'] else []) ++ (toString (p - 1)).toList =
      Literal.exponentChars (plus && 0 < p - 1) (some (p - 1 < 0, Numeral.decimal (p - 1).natAbs)) := by
    rw [toList_toString_int, Literal.exponentChars, Literal.signChars]
    by_cases hneg : p - 1 < 0
    · have hpos : ¬ 0 < p - 1 := by omega
      simp only [hpos, hneg, decide_true, decide_false, Bool.and_false, Bool.false_eq_true, if_true, if_false]
      rfl
    · simp [hneg]
  refine ⟨⟨negative, [d], ds, some (p - 1 < 0, Numeral.decimal (p - 1).natAbs)⟩, plus && 0 < p - 1,
    ⟨.singleton (h.lt d List.mem_cons_self), fun x hx => h.lt x (List.mem_cons_of_mem d hx), ?_⟩, ?_⟩
  · rintro e ⟨⟩
    exact ⟨(Leading.decimal _).ne, (Leading.decimal _).lt⟩
  · rw [Literal.chars, ← hexponent]
    cases ds with
    | nil => simp [scientific, Literal.fractionChars]
    | cons d' ds => simp [scientific, Literal.fractionChars]

/-- **The text of every real number is a literal.** -/
theorem text_literal (x : Binary64) :
    ∃ l : Literal, ∃ plus, l.WellFormed ∧ (x.text realStyle).toList = l.chars plus := by
  have hsign : (if x.negative then ['-'] else []) = Literal.signChars x.negative := rfl
  simp only [text, String.toList_ofList, Numeral.toList_toString, List.length_map, hsign]
  split_ifs with hzero hstyle
  · refine ⟨⟨x.negative, [0], [0], none⟩, false, ⟨.singleton (by omega), by simp, by simp⟩, ?_⟩
    cases x.negative <;> rfl
  · have hp : Numeral.decimal x.shortest.digits = [0] →
        x.shortest.power + (Numeral.decimal x.shortest.digits).length ≤ 1 := by
      intro hdigits
      have hnone : x.shortest.digits = 0 := by
        rw [← Numeral.ofDigits_decimal x.shortest.digits, hdigits]
        rfl
      have hpower := shortest_digits hzero hnone
      rw [hdigits, List.length_singleton]
      omega
    obtain ⟨l, hl, hchars⟩ := positional_literal (Leading.decimal _) hp x.negative
    exact ⟨l, false, hl, hchars⟩
  · exact scientific_literal (Leading.decimal _) _ _ x.negative

end ReplicatedOrders.Binary64
