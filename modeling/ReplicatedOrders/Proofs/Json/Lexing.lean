/-
Lexing: the scanner takes a text apart into the tokens that the grammar says it is made of.

One way the scanner is run over a text of the grammar: it skips blanks and reads the spelling of every token, and where
no two numbers stand side by side every number ends before something that no number goes on with. The other way
`Scan.Since` says what was read since the last token that is complete, for every place where the scanner can stand. One
character keeps it (`Scan.Since.feed`), and so does a whole text.
- `lexFrom_token`: the spelling of a token is read as the token.
- `NumberScan.Since.next`, `Scan.Since.feed`: what one character adds to what was read.
- `lex_eq_iff`: the tokens of a text are those of the grammar.
-/
import ReplicatedOrders.Proofs.Json.Grammar

namespace ReplicatedOrders.Json

/-! ## Strings -/

namespace TextScan

/-- a character is never a surrogate -/
theorem push_eq_pushUnit (t : TextScan) (c : Char) : t.push c = t.pushUnit c.toNat := by
  have hvalid : c.toNat < 0xD800 ∨ 0xDFFF < c.toNat ∧ c.toNat < 0x110000 := c.valid
  rw [pushUnit, if_neg (by omega), if_neg (by omega), Char.ofNat_toNat]

/-- the text of a scan that goes on with some codes -/
theorem token_foldl_pushUnit (t : TextScan) (hhigh : ∀ h ∈ t.high, 0xD800 ≤ h ∧ h ≤ 0xDBFF) (us : List Nat) :
    (us.foldl pushUnit t).token =
      .text (if t.paired then (textOf? (t.high.toList ++ us)).map fun cs => String.ofList (t.chars.reverse ++ cs)
        else none) := by
  obtain ⟨chars, high, paired⟩ := t
  induction us generalizing chars high paired with
  | nil =>
    cases high with
    | none => simp [token, textOf?]
    | some h =>
      have hh := hhigh h rfl
      simp [token, textOf?, hh]
  | cons u us ih =>
    rw [List.foldl_cons, pushUnit]
    by_cases hu : 0xD800 ≤ u ∧ u ≤ 0xDBFF
    · rw [if_pos hu, ih _ _ _ (by rintro h ⟨⟩; exact hu)]
      cases high with
      | none => simp
      | some h =>
        have hh := hhigh h rfl
        have hno : ¬ (0xDC00 ≤ u ∧ u ≤ 0xDFFF) := by omega
        simp [textOf?, hh, hno]
    rw [if_neg hu]
    by_cases hl : 0xDC00 ≤ u ∧ u ≤ 0xDFFF
    · rw [if_pos hl]
      cases high with
      | none =>
        rw [ih _ _ _ (by rintro h ⟨⟩)]
        simp [textOf?_low hl]
      | some h =>
        have hh := hhigh h rfl
        rw [ih _ _ _ (by rintro h ⟨⟩)]
        simp [textOf?, hh, hl, Option.map_map, Function.comp_def]
    · rw [if_neg hl, push, ih _ _ _ (by rintro h ⟨⟩)]
      cases high with
      | none => simp [textOf?_plain hu hl, Option.map_map, Function.comp_def]
      | some h =>
        have hh := hhigh h rfl
        simp [textOf?, hh, hl]

/-- the token of the codes of a string -/
theorem token_codes (us : List Nat) : (us.foldl pushUnit {}).token = .text ((textOf? us).map String.ofList) :=
  token_foldl_pushUnit {} (by rintro h ⟨⟩) us

end TextScan

theorem lexFrom_code (t : TextScan) {hex : List Char} {ds : List Nat}
    (hhex : hex.map (Numeral.digitIn 16) = ds.map some) (hlength : ds.length = 4) (rest : List Char) :
    lexFrom (.code t []) (hex ++ rest) = lexFrom (.text (t.pushUnit (Numeral.ofDigits 16 ds))) rest := by
  obtain ⟨w, x, y, z, rfl⟩ := List.length_eq_four.1 hlength
  have hfour : hex.length = 4 := by simpa using congrArg List.length hhex
  obtain ⟨a, b, c, d, rfl⟩ := List.length_eq_four.1 hfour
  simp only [List.map_cons, List.map_nil, List.cons.injEq, and_true] at hhex
  simp [lexFrom, feed, hhex]

/-- a string is read as its codes -/
theorem lexFrom_quoted {cs : List Char} {us : List Nat} (h : Quoted cs us) (t : TextScan) (rest : List Char) :
    lexFrom (.text t) (cs ++ '"' :: rest) = (us.foldl TextScan.pushUnit t).token :: lexFrom .gap rest := by
  induction h generalizing t with
  | nil => simp [lexFrom, feed]
  | @plain c cs us hquote hescape hcontrol _ ih =>
    rw [List.foldl_cons, ← ih, ← TextScan.push_eq_pushUnit]
    simp [lexFrom, feed, hquote, hescape, Nat.not_lt.2 hcontrol]
  | @escape e c cs us he _ ih =>
    have hu : e ≠ 'u' := by
      rintro rfl
      cases he
    rw [List.foldl_cons, ← ih, ← TextScan.push_eq_pushUnit]
    simp [lexFrom, feed, hu, he]
  | @code hex ds cs us hhex hlength _ ih =>
    rw [List.foldl_cons, ← ih, ← lexFrom_code t hhex hlength, ← List.append_assoc]
    simp [lexFrom, feed]

/-! ## From the grammar to the tokens -/

/-- the spelling of a token is read as the token -/
theorem lexFrom_token {t : Token} {cs : List Char} (h : t.Spelling cs) {rest : List Char}
    (hr : t.isNumber = true → Stops rest) : lexFrom .gap (cs ++ rest) = t :: lexFrom .gap rest := by
  cases h with
  | openArray | closeArray | openObject | closeObject | colon | comma | null | boolTrue | boolFalse => rfl
  | number h => exact Literal.lexFrom_spelling h (hr rfl)
  | text h =>
    rw [← TextScan.token_codes, ← lexFrom_quoted h, List.cons_append, List.append_assoc]
    rfl

theorem lexFrom_blanks {blanks : List Char} (h : ∀ c ∈ blanks, Blank c) (rest : List Char) :
    lexFrom .gap (blanks ++ rest) = lexFrom .gap rest := by
  induction blanks with
  | nil => rfl
  | cons c blanks ih =>
    rw [← ih fun d hd => h d (List.mem_cons_of_mem c hd)]
    rcases h c List.mem_cons_self with rfl | rfl | rfl | rfl <;> rfl

theorem stops_cons {c : Char} (cs : List Char)
    (h : Numeral.digitIn 10 c = none ∧ c ≠ '.' ∧ c ≠ 'e' ∧ c ≠ 'E') : Stops (c :: cs) := by
  rintro d ds ⟨⟩
  exact h

/-- a number ends before blanks -/
theorem stops_blanks {blanks rest : List Char} (h : ∀ c ∈ blanks, Blank c) (hr : Stops rest) :
    Stops (blanks ++ rest) := by
  cases blanks with
  | nil => exact hr
  | cons c blanks => rcases h c List.mem_cons_self with rfl | rfl | rfl | rfl <;> exact stops_cons _ (by decide)

/-- a number ends before every token that is no number -/
theorem Token.Spelling.stops {t : Token} {cs : List Char} (h : t.Spelling cs) (ht : t.isNumber = false)
    (rest : List Char) : Stops (cs ++ rest) := by
  cases h with
  | number h => cases ht
  | _ => exact stops_cons _ (by decide)

theorem Lexemes.singleton {t : Token} {blanks cs : List Char} (hblanks : ∀ c ∈ blanks, Blank c) (ht : t.Spelling cs) :
    Lexemes [t] (blanks ++ cs) := by
  have hlexemes := Lexemes.cons hblanks ht (.nil no_blanks)
  rwa [List.append_nil] at hlexemes

theorem Lexemes.stops {ts : List Token} {cs : List Char} (h : Lexemes ts cs)
    (ht : ∀ t ∈ ts.head?, t.isNumber = false) : Stops cs := by
  cases h with
  | nil hblanks => simpa using stops_blanks hblanks Stops.nil
  | cons hblanks hs _ => exact stops_blanks hblanks (hs.stops (ht _ rfl) _)

theorem lexFrom_lexemes {ts : List Token} {cs : List Char} (h : Lexemes ts cs) (happart : Apart ts) :
    lexFrom .gap cs = ts := by
  induction h with
  | nil hblanks => simpa [lexFrom, finish] using lexFrom_blanks hblanks []
  | cons hblanks ht hts ih =>
    obtain ⟨hhead, htail⟩ := List.isChain_cons.1 happart
    rw [lexFrom_blanks hblanks, lexFrom_token ht, ih htail]
    intro hnumber
    refine hts.stops fun u hu => ?_
    by_contra hno
    exact hhead u hu ⟨hnumber, by simpa using hno⟩

/-! ## What was read of a number -/

theorem Leading.snoc {ds : List Nat} (h : Leading ds) (hne : ds ≠ [0]) {d : Nat} (hd : d < 10) :
    Leading (ds ++ [d]) := by
  refine ⟨by simp, ?_, ?_⟩
  · intro x hx
    rcases List.mem_append.1 hx with hx | hx
    · exact h.lt x hx
    · rw [List.mem_singleton.1 hx]
      exact hd
  · intro ds' heq
    obtain ⟨x, xs, rfl⟩ := List.exists_cons_of_ne_nil h.ne
    obtain ⟨rfl, -⟩ := List.cons.inj heq
    exact absurd (by rw [h.head xs rfl]) hne

namespace NumberScan

/-- a character that is no digit continues a number in three ways -/
theorem other_cases {n n' : NumberScan} {c : Char} (h : n.other c = some n') :
    ((n.part = .zero ∨ n.part = .whole) ∧ c = '.' ∧ n' = { n with part := .point }) ∨
      ((n.part = .zero ∨ n.part = .whole ∨ n.part = .fraction) ∧ (c = 'e' ∨ c = 'E') ∧ n' = { n with part := .mark }) ∨
      (n.part = .mark ∧
        (c = '+' ∧ n' = { n with part := .sign } ∨ c = '-' ∧ n' = { n with part := .sign, down := true })) := by
  unfold other at h
  split at h <;> simp_all

/-- what was read of a number -/
inductive Since : NumberScan → List Char → Prop where
  | minus : Since { part := .minus, negative := true } ['-']
  | mantissa {l : Literal} (h : l.WellFormed) (hnone : l.exponent = none) : Since l.fractionScan l.mantissa
  | point {l : Literal} (h : l.WellFormed) (hnone : l.exponent = none) (hblank : l.fraction = []) :
    Since { l.fractionScan with part := .point } (l.mantissa ++ ['.'])
  | mark {l : Literal} {mark : Char} (h : l.WellFormed) (hnone : l.exponent = none) (hmark : mark = 'e' ∨ mark = 'E') :
    Since { l.fractionScan with part := .mark } (l.mantissa ++ [mark])
  | sign {l : Literal} {mark : Char} {down : Bool} {sign : List Char} (h : l.WellFormed) (hnone : l.exponent = none)
    (hmark : mark = 'e' ∨ mark = 'E') (hsign : Literal.ExponentSign down sign) :
    Since { l.fractionScan with part := .sign, down } (l.mantissa ++ mark :: sign)
  | exponent {l : Literal} {mark : Char} {down : Bool} {sign : List Char} {ds : List Nat} (h : l.WellFormed)
    (hnone : l.exponent = none) (hmark : mark = 'e' ∨ mark = 'E') (hsign : Literal.ExponentSign down sign)
    (hne : ds ≠ []) (hds : ∀ d ∈ ds, d < 10) :
    Since { l.fractionScan with part := .exponent, down, exponent := ds.reverse }
      (l.mantissa ++ mark :: (sign ++ ds.map Nat.digitChar))
  | refused {n : NumberScan} {cs : List Char} (h : n.part = .refused) : Since n cs

namespace Since

/-- the first digit -/
theorem first (negative : Bool) {d : Nat} (hd : d < 10) :
    Since { part := if d = 0 then .zero else .whole, negative, whole := [d] }
      (Literal.signChars negative ++ [Nat.digitChar d]) := by
  have hfirst := mantissa (l := ⟨negative, [d], [], none⟩) ((Leading.singleton hd).wellFormed negative) rfl
  simpa [Literal.fractionScan, Literal.wholeScan, Literal.mantissa, Literal.fractionChars] using hfirst

theorem digit {n n' : NumberScan} {cs : List Char} (h : n.Since cs) {d : Nat} (hd : d < 10)
    (hn : n.digit d = some n') : n'.Since (cs ++ [Nat.digitChar d]) := by
  have hone : ∀ x ∈ [d], x < 10 := by simpa using hd
  have hsnoc : ∀ {ds : List Nat}, (∀ x ∈ ds, x < 10) → ∀ x ∈ ds ++ [d], x < 10 := by
    intro ds hds x hx
    exact (List.mem_append.1 hx).elim (hds x) (hone x)
  cases h with
  | minus =>
    cases hn
    exact first true hd
  | @mantissa l hl hnone =>
    obtain ⟨negative, whole, fraction, exponent⟩ := l
    obtain rfl : exponent = none := hnone
    by_cases hf : fraction = []
    · subst hf
      by_cases hw : whole = [0]
      · subst hw
        cases hn
        exact .refused rfl
      · have hnext := mantissa (l := ⟨negative, whole ++ [d], [], none⟩) ((hl.whole.snoc hw hd).wellFormed negative) rfl
        have hne : whole ++ [d] ≠ [0] := by
          intro heq
          exact hl.whole.ne (List.append_eq_singleton_iff.1 heq |>.elim (fun h => h.1) fun h => absurd h.2 (by simp))
        simp [Literal.fractionScan, Literal.wholeScan, NumberScan.digit, hw] at hn
        subst hn
        simpa [Literal.fractionScan, Literal.wholeScan, Literal.mantissa, Literal.fractionChars, hne] using hnext
    · have hnext := mantissa (l := ⟨negative, whole, fraction ++ [d], none⟩)
        ⟨hl.whole, hsnoc hl.fraction_lt, by simp⟩ rfl
      simp [Literal.fractionScan, Literal.wholeScan, NumberScan.digit, hf] at hn
      subst hn
      simpa [Literal.fractionScan, Literal.wholeScan, Literal.mantissa, Literal.fractionChars, hf] using hnext
  | @point l hl hnone hblank =>
    obtain ⟨negative, whole, fraction, exponent⟩ := l
    obtain rfl : exponent = none := hnone
    obtain rfl : fraction = [] := hblank
    have hnext := mantissa (l := ⟨negative, whole, [d], none⟩) ⟨hl.whole, hone, by simp⟩ rfl
    cases hn
    simpa [Literal.fractionScan, Literal.wholeScan, Literal.mantissa, Literal.fractionChars] using hnext
  | @mark l mark hl hnone hmark =>
    have hnext := exponent hl hnone hmark .none (List.cons_ne_nil d []) hone
    cases hn
    simpa [l.fractionScan_blank] using hnext
  | @sign l mark down sign hl hnone hmark hsign =>
    have hnext := exponent hl hnone hmark hsign (List.cons_ne_nil d []) hone
    cases hn
    simpa [l.fractionScan_blank] using hnext
  | @exponent l mark down sign ds hl hnone hmark hsign hne hds =>
    have hne' := List.append_ne_nil_of_right_ne_nil ds (List.cons_ne_nil d [])
    have hnext := exponent hl hnone hmark hsign hne' (hsnoc hds)
    cases hn
    simpa using hnext
  | refused h =>
    rw [NumberScan.digit, h] at hn
    cases hn

/-- a number that may end and has no exponent -/
theorem exists_mantissa {n : NumberScan} {cs : List Char} (h : n.Since cs)
    (hpart : n.part = .zero ∨ n.part = .whole ∨ n.part = .fraction) :
    ∃ l : Literal, l.WellFormed ∧ l.exponent = none ∧ n = l.fractionScan ∧ cs = l.mantissa := by
  cases h with
  | mantissa hl hnone => exact ⟨_, hl, hnone, rfl, rfl⟩
  | refused h => simp [h] at hpart
  | _ => simp at hpart

theorem other {n n' : NumberScan} {cs : List Char} (h : n.Since cs) {c : Char} (hn : n.other c = some n') :
    n'.Since (cs ++ [c]) := by
  rcases other_cases hn with ⟨hpart, rfl, rfl⟩ | ⟨hpart, hmark, rfl⟩ | ⟨hpart, hsign⟩
  · obtain ⟨l, hl, hnone, rfl, rfl⟩ := h.exists_mantissa (by tauto)
    refine .point hl hnone ?_
    by_contra hf
    simp [Literal.fractionScan, hf] at hpart
  · obtain ⟨l, hl, hnone, rfl, rfl⟩ := h.exists_mantissa hpart
    exact .mark hl hnone hmark
  · cases h with
    | @mark l mark hl hnone hmark =>
      rw [List.append_assoc]
      rcases hsign with ⟨rfl, rfl⟩ | ⟨rfl, rfl⟩
      · have hnext := sign hl hnone hmark .plus
        rw [← l.fractionScan_blank.2] at hnext
        exact hnext
      · exact .sign hl hnone hmark .minus
    | @mantissa l hl hnone => rcases l.fractionScan_part with h | h | h <;> cases hpart.symm.trans h
    | refused h => cases hpart.symm.trans h
    | _ => cases hpart

theorem next {n n' : NumberScan} {cs : List Char} (h : n.Since cs) {c : Char} (hn : n.next c = some n') :
    n'.Since (cs ++ [c]) := by
  unfold NumberScan.next at hn
  split at hn
  · next d hd =>
    obtain ⟨hlt, rfl⟩ := Numeral.digitIn_eq_some hd
    exact h.digit hlt hn
  · exact h.other hn

/-- a number that may end is spelled -/
theorem spelling {n : NumberScan} {cs : List Char} (h : n.Since cs) (hn : n.complete = true) :
    n.token.Spelling cs := by
  have hliteral : ∀ l : Literal, n = l.scan → l.Spelling cs → n.token.Spelling cs := by
    rintro l rfl hl
    rw [token, if_pos hn, l.literal_scan]
    exact .number hl
  have hpart : (n.part = .zero ∨ n.part = .whole ∨ n.part = .fraction) ∨ n.part = .exponent := by
    unfold complete at hn
    split at hn <;> simp_all
  rcases hpart with hpart | hpart
  · obtain ⟨l, hl, hnone, rfl, rfl⟩ := h.exists_mantissa hpart
    exact hliteral l (by rw [Literal.scan, hnone]) (Literal.spelling_mantissa hl hnone)
  · cases h with
    | @exponent l mark down sign ds hl hnone hmark hsign hne hds =>
      refine hliteral { l with exponent := some (down, ds) } rfl
        (.intro ⟨hl.whole, hl.fraction_lt, ?_⟩ (.some ds hmark hsign))
      rintro e ⟨⟩
      exact ⟨hne, hds⟩
    | @mantissa l hl hnone => rcases l.fractionScan_part with h | h | h <;> cases hpart.symm.trans h
    | refused h => cases hpart.symm.trans h
    | _ => cases hpart

end Since

end NumberScan

/-! ## What was read since the last token -/

namespace Scan

/-- what was read since the last token that is complete -/
inductive Since : Scan → List Char → Prop where
  | gap {blanks : List Char} (hblanks : ∀ c ∈ blanks, Blank c) : Since .gap blanks
  | word {blanks cs rest : List Char} {t : Token} (hblanks : ∀ c ∈ blanks, Blank c) (h : t.Spelling (cs ++ rest)) :
    Since (.word rest t) (blanks ++ cs)
  | number {blanks cs : List Char} {n : NumberScan} (hblanks : ∀ c ∈ blanks, Blank c) (h : n.Since cs) :
    Since (.number n) (blanks ++ cs)
  | text {blanks cs : List Char} {us : List Nat} (hblanks : ∀ c ∈ blanks, Blank c) (h : Quoted cs us) :
    Since (.text (us.foldl TextScan.pushUnit {})) (blanks ++ '"' :: cs)
  | escape {blanks cs : List Char} {us : List Nat} (hblanks : ∀ c ∈ blanks, Blank c) (h : Quoted cs us) :
    Since (.escape (us.foldl TextScan.pushUnit {})) (blanks ++ '"' :: (cs ++ ['\\']))
  | code {blanks cs hex : List Char} {us ds : List Nat} (hblanks : ∀ c ∈ blanks, Blank c) (h : Quoted cs us)
    (hhex : hex.map (Numeral.digitIn 16) = ds.reverse.map some) (hlength : ds.length < 4) :
    Since (.code (us.foldl TextScan.pushUnit {}) ds) (blanks ++ '"' :: (cs ++ '\\' :: 'u' :: hex))

/-- when some characters are read, `out` are the tokens that they complete, and the machine stands at `s` after them -/
def Leads (cs : List Char) (out : List Token) (s : Scan) : Prop :=
  ∃ pending, Since s pending ∧ ∀ ts rest, Lexemes ts (pending ++ rest) → Lexemes (out ++ ts) (cs ++ rest)

/-- no token is complete -/
theorem Since.leads {s : Scan} {cs : List Char} (h : Since s cs) : Leads cs [] s := ⟨cs, h, fun _ _ hts => hts⟩

/-- a token is complete before the last characters -/
theorem Leads.cons {t : Token} {blanks cs cs' : List Char} {out : List Token} {s : Scan} (h : Leads cs' out s)
    (hblanks : ∀ c ∈ blanks, Blank c) (ht : t.Spelling cs) : Leads (blanks ++ cs ++ cs') (t :: out) s := by
  obtain ⟨pending, hs, hleads⟩ := h
  refine ⟨pending, hs, fun ts rest hts => ?_⟩
  rw [List.append_assoc, List.append_assoc]
  exact .cons hblanks ht (hleads ts rest hts)

/-- a token is complete -/
theorem leads_token {t : Token} {blanks cs : List Char} (hblanks : ∀ c ∈ blanks, Blank c) (ht : t.Spelling cs) :
    Leads (blanks ++ cs) [t] .gap := by
  have hleads := (Since.gap no_blanks).leads.cons hblanks ht
  rwa [List.append_nil] at hleads

theorem leads_begin {blanks : List Char} (hblanks : ∀ c ∈ blanks, Blank c) {c : Char} (hc : .bad ∉ (begin c).1) :
    Leads (blanks ++ [c]) (begin c).1 (begin c).2 := by
  have hblank : Blank c → Leads (blanks ++ [c]) [] .gap := by
    intro h
    refine (Since.gap fun d hd => ?_).leads
    exact (List.mem_append.1 hd).elim (hblanks d) fun hd => List.mem_singleton.1 hd ▸ h
  unfold begin at hc ⊢
  split at hc
  · exact hblank (by decide)
  · exact hblank (by decide)
  · exact hblank (by decide)
  · exact hblank (by decide)
  · exact leads_token hblanks .openArray
  · exact leads_token hblanks .closeArray
  · exact leads_token hblanks .openObject
  · exact leads_token hblanks .closeObject
  · exact leads_token hblanks .colon
  · exact leads_token hblanks .comma
  · exact (Since.text hblanks .nil).leads
  · exact (Since.word hblanks (show Token.Spelling .null (['n'] ++ _) from .null)).leads
  · exact (Since.word hblanks (show Token.Spelling (.bool true) (['t'] ++ _) from .boolTrue)).leads
  · exact (Since.word hblanks (show Token.Spelling (.bool false) (['f'] ++ _) from .boolFalse)).leads
  · exact (Since.number hblanks .minus).leads
  · split at hc
    · next d hd =>
      obtain ⟨hlt, rfl⟩ := Numeral.digitIn_eq_some hd
      exact (Since.number hblanks (.first false hlt)).leads
    · simp at hc

/-- **One character.** -/
theorem Since.feed {s : Scan} {cs : List Char} (h : Since s cs) {c : Char} (hc : .bad ∉ (feed s c).1) :
    Leads (cs ++ [c]) (feed s c).1 (feed s c).2 := by
  cases h with
  | gap hblanks => exact leads_begin hblanks hc
  | @word blanks cs rest t hblanks h =>
    rcases rest with _ | ⟨w, _ | ⟨w', ws⟩⟩
    · rw [List.append_nil] at h
      exact (leads_begin no_blanks fun hbad => hc (List.mem_cons_of_mem t hbad)).cons hblanks h
    · rw [Json.feed] at hc ⊢
      split_ifs at hc ⊢ with hw
      · subst hw
        rw [List.append_assoc]
        exact leads_token hblanks h
      · simp at hc
    · have hfeed : Json.feed (.word (w :: w' :: ws) t) c =
          if c = w then ([], .word (w' :: ws) t) else ([.bad], .stuck) := rfl
      rw [hfeed] at hc ⊢
      split_ifs at hc ⊢ with hw
      · subst hw
        rw [List.append_assoc]
        refine (Since.word hblanks ?_).leads
        rwa [List.append_assoc]
      · simp at hc
  | @number blanks cs n hblanks h =>
    rw [Json.feed] at hc ⊢
    split at hc
    · next n' hn =>
      rw [List.append_assoc]
      exact (Since.number hblanks (h.next hn)).leads
    · split_ifs at hc ⊢ with hcomplete
      · exact (leads_begin no_blanks fun hbad => hc (List.mem_cons_of_mem _ hbad)).cons hblanks
          (h.spelling hcomplete)
      · simp at hc
  | @text blanks cs us hblanks h =>
    rw [Json.feed] at hc ⊢
    rw [List.append_assoc, List.cons_append]
    split_ifs at hc ⊢ with hquote hescape hcontrol
    · subst hquote
      rw [TextScan.token_codes]
      exact leads_token hblanks (.text h)
    · subst hescape
      exact (Since.escape hblanks h).leads
    · simp at hc
    · have hnext := Since.text hblanks (h.append (.plain hquote hescape (Nat.not_lt.1 hcontrol) .nil))
      rw [List.foldl_append, List.foldl_cons, List.foldl_nil, ← TextScan.push_eq_pushUnit] at hnext
      exact hnext.leads
  | @escape blanks cs us hblanks h =>
    rw [Json.feed] at hc ⊢
    rw [List.append_assoc, List.cons_append, List.append_assoc, List.singleton_append]
    split_ifs at hc ⊢ with hu
    · subst hu
      have hnone : ([] : List Char).map (Numeral.digitIn 16) = ([] : List Nat).reverse.map some := rfl
      exact (Since.code hblanks h hnone (Nat.succ_pos 3)).leads
    · split at hc
      · next d hd =>
        have hnext := Since.text hblanks (h.append (.escape hd .nil))
        rw [List.foldl_append, List.foldl_cons, List.foldl_nil, ← TextScan.push_eq_pushUnit] at hnext
        exact hnext.leads
      · simp at hc
  | @code blanks cs hex us ds hblanks h hhex hlength =>
    rw [Json.feed] at hc ⊢
    split at hc
    · simp at hc
    · next d hd =>
      have hsnoc : (hex ++ [c]).map (Numeral.digitIn 16) = (d :: ds).reverse.map some := by simp [hhex, hd]
      have hcs : blanks ++ '"' :: (cs ++ '\\' :: 'u' :: hex) ++ [c] =
          blanks ++ '"' :: (cs ++ '\\' :: 'u' :: (hex ++ [c])) := by simp
      rw [hcs]
      split_ifs with hmore
      · exact (Since.code hblanks h hsnoc (Nat.succ_lt_succ hmore)).leads
      · have hfour : (d :: ds).reverse.length = 4 := by
          rw [List.length_reverse, List.length_cons]
          omega
        have hnext := Since.text hblanks (h.append (.code hsnoc hfour .nil))
        rw [List.foldl_append, List.foldl_cons, List.foldl_nil, List.append_nil] at hnext
        exact hnext.leads

/-- the end of a text -/
theorem Since.finish {s : Scan} {cs : List Char} (h : Since s cs) (hs : .bad ∉ finish s) : Lexemes (finish s) cs := by
  cases h with
  | gap hblanks => exact .nil hblanks
  | @word blanks cs rest t hblanks h =>
    cases rest with
    | nil => exact .singleton hblanks (List.append_nil cs ▸ h)
    | cons w ws => simp [Json.finish] at hs
  | @number blanks cs n hblanks h =>
    have hcomplete : n.complete = true := by
      by_contra hno
      simp [Json.finish, NumberScan.token, hno] at hs
    exact .singleton hblanks (h.spelling hcomplete)
  | _ => simp [Json.finish] at hs

/-- **A whole text.** -/
theorem Since.lexemes {s : Scan} {pending : List Char} (h : Since s pending) {cs : List Char}
    (hbad : .bad ∉ lexFrom s cs) : Lexemes (lexFrom s cs) (pending ++ cs) := by
  induction cs generalizing s pending with
  | nil => simpa [lexFrom] using h.finish hbad
  | cons c cs ih =>
    rw [lexFrom, List.mem_append, not_or] at hbad
    obtain ⟨pending', hs, hleads⟩ := h.feed hbad.1
    have hlexemes := hleads _ _ (ih hs hbad.2)
    rwa [List.append_assoc, List.singleton_append] at hlexemes

end Scan

/-- **The tokens of a text are those of the grammar.** -/
theorem lex_eq_iff {ts : List Token} (happart : Apart ts) (hbad : .bad ∉ ts) (t : String) :
    lex t = ts ↔ Lexemes ts t.toList := by
  constructor
  · rintro rfl
    exact (Scan.Since.gap no_blanks).lexemes hbad
  · intro h
    exact lexFrom_lexemes h happart

end ReplicatedOrders.Json
