/-
The grammar of JSON texts, apart from any way to read them.

A text is a list of tokens with blanks around them, and a document is written as a list of tokens. Nothing is said here
about limits: a text may nest as deep as it likes, and a number beyond all finite numbers or half of a surrogate pair,
given by its code, has the form of a value (`Doc.unreadable`).
- `Quoted`, `textOf?`: what stands between the quotes of a string, and the text that it means.
- `Token.Spelling`, `Lexemes`: tokens as characters.
- `Doc.Spelling`, `Doc.WrittenAs`: documents as tokens and as texts.
- `WellFormed`: the texts of the grammar.
- `Doc.Spelling.apart`, `Doc.Spelling.bad_not_mem`: in the tokens of a document no two numbers stand side by side, and
  none is bad.
-/
import ReplicatedOrders.Proofs.Json.Literal

namespace ReplicatedOrders.Json

/-! ## Strings -/

/-- the characters between the quotes of a string, and the codes that they stand for -/
inductive Quoted : List Char → List Nat → Prop where
  | nil : Quoted [] []
  | plain {c : Char} {cs : List Char} {us : List Nat} (hquote : c ≠ '"') (hescape : c ≠ '\\')
    (hcontrol : 0x20 ≤ c.toNat) (h : Quoted cs us) : Quoted (c :: cs) (c.toNat :: us)
  | escape {e c : Char} {cs : List Char} {us : List Nat} (he : unescape e = some c) (h : Quoted cs us) :
    Quoted ('\\' :: e :: cs) (c.toNat :: us)
  /-- a code by four hexadecimal digits -/
  | code {hex : List Char} {ds : List Nat} {cs : List Char} {us : List Nat}
    (hhex : hex.map (Numeral.digitIn 16) = ds.map some) (hlength : ds.length = 4) (h : Quoted cs us) :
    Quoted ('\\' :: 'u' :: (hex ++ cs)) (Numeral.ofDigits 16 ds :: us)

/-- the text of a list of codes: a high surrogate and the low one after it are one character, and nothing else may be a
surrogate -/
def textOf? : List Nat → Option (List Char)
  | [] => some []
  | u :: us =>
    if 0xD800 ≤ u ∧ u ≤ 0xDBFF then
      match us with
      | [] => none
      | l :: us =>
        if 0xDC00 ≤ l ∧ l ≤ 0xDFFF then
          (textOf? us).map (Char.ofNat (0x10000 + (u - 0xD800) * 0x400 + (l - 0xDC00)) :: ·)
        else none
    else if 0xDC00 ≤ u ∧ u ≤ 0xDFFF then none
    else (textOf? us).map (Char.ofNat u :: ·)

theorem textOf?_plain {u : Nat} (hhigh : ¬ (0xD800 ≤ u ∧ u ≤ 0xDBFF)) (hlow : ¬ (0xDC00 ≤ u ∧ u ≤ 0xDFFF))
    (us : List Nat) : textOf? (u :: us) = (textOf? us).map (Char.ofNat u :: ·) := by
  cases us <;> simp [textOf?, hhigh, hlow]

theorem textOf?_low {u : Nat} (h : 0xDC00 ≤ u ∧ u ≤ 0xDFFF) (us : List Nat) : textOf? (u :: us) = none := by
  have hhigh : ¬ (0xD800 ≤ u ∧ u ≤ 0xDBFF) := by omega
  cases us <;> simp [textOf?, hhigh, h]

namespace Quoted

theorem append {cs cs' : List Char} {us us' : List Nat} (h : Quoted cs us) (h' : Quoted cs' us') :
    Quoted (cs ++ cs') (us ++ us') := by
  induction h with
  | nil => exact h'
  | plain hquote hescape hcontrol _ ih => exact .plain hquote hescape hcontrol ih
  | escape he _ ih => exact .escape he ih
  | code hhex hlength _ ih =>
    rw [List.cons_append, List.cons_append, List.append_assoc]
    exact .code hhex hlength ih

end Quoted

/-! ## Tokens -/

/-- how a token is written -/
inductive Token.Spelling : Token → List Char → Prop where
  | openArray : Spelling .openArray ['[']
  | closeArray : Spelling .closeArray [']']
  | openObject : Spelling .openObject ['\x7b']
  | closeObject : Spelling .closeObject ['\x7d']
  | colon : Spelling .colon [':']
  | comma : Spelling .comma [',']
  | null : Spelling .null ['n', 'u', 'l', 'l']
  | boolTrue : Spelling (.bool true) ['t', 'r', 'u', 'e']
  | boolFalse : Spelling (.bool false) ['f', 'a', 'l', 's', 'e']
  | number {l : Literal} {cs : List Char} (h : l.Spelling cs) : Spelling (.number l.number?) cs
  | text {cs : List Char} {us : List Nat} (h : Quoted cs us) :
    Spelling (.text ((textOf? us).map String.ofList)) ('"' :: (cs ++ ['"']))

/-- the characters that may stand between tokens -/
def Blank (c : Char) : Prop := c = ' ' ∨ c = '\t' ∨ c = '\n' ∨ c = '\r'

instance (c : Char) : Decidable (Blank c) := inferInstanceAs (Decidable (_ ∨ _))

theorem no_blanks : ∀ c ∈ ([] : List Char), Blank c := by
  intro c hc
  cases hc

/-- tokens one after the other, with blanks before, between and after them -/
inductive Lexemes : List Token → List Char → Prop where
  | nil {blanks : List Char} (hblanks : ∀ c ∈ blanks, Blank c) : Lexemes [] blanks
  | cons {t : Token} {ts : List Token} {blanks cs rest : List Char} (hblanks : ∀ c ∈ blanks, Blank c)
    (ht : t.Spelling cs) (hts : Lexemes ts rest) : Lexemes (t :: ts) (blanks ++ (cs ++ rest))

/-! ## Documents -/

/-- a member as tokens: its key, a colon and its value -/
def memberTokens (m : (Option String × Doc) × List Token) : List Token := .text m.1.1 :: .colon :: m.2

namespace Doc

/-- how a document is written -/
inductive Spelling : Doc → List Token → Prop where
  | null : Spelling .null [.null]
  | bool (b : Bool) : Spelling (.bool b) [.bool b]
  | number (n : Option Number) : Spelling (n.elim .unreadable .number) [.number n]
  | text (s : Option String) : Spelling (s.elim .unreadable .text) [.text s]
  | array {items : List (Doc × List Token)} (h : ∀ i ∈ items, Spelling i.1 i.2) :
    Spelling (.array (items.map fun i => i.1))
      (.openArray :: ([.comma].intercalate (items.map fun i => i.2) ++ [.closeArray]))
  | object {members : List ((Option String × Doc) × List Token)} (h : ∀ m ∈ members, Spelling m.1.2 m.2) :
    Spelling (.object (members.map fun m => m.1))
      (.openObject :: ([.comma].intercalate (members.map memberTokens) ++ [.closeObject]))

/-- a text of the document -/
def WrittenAs (d : Doc) (text : String) : Prop := ∃ ts, d.Spelling ts ∧ Lexemes ts text.toList

end Doc

/-- a text of the grammar -/
def WellFormed (text : String) : Prop := ∃ d : Doc, d.WrittenAs text

/-! ## Commas -/

theorem intercalate_cons {α : Type} (a : α) (xs : List α) (xss : List (List α)) :
    [a].intercalate (xs :: xss) = xs ++ xss.flatMap (a :: ·) := by
  induction xss generalizing xs with
  | nil => simp [List.intercalate]
  | cons ys yss ih =>
    have h := ih ys
    simp only [List.intercalate] at h ⊢
    rw [List.intersperse_cons_cons, List.flatten_cons, List.flatten_cons, h]
    simp

theorem intercalate_snoc {α : Type} (a : α) (xss : List (List α)) (xs : List α) :
    [a].intercalate (xss ++ [xs]) = xss.flatMap (· ++ [a]) ++ xs := by
  induction xss with
  | nil => simp [List.intercalate]
  | cons ys yss ih =>
    rw [List.flatMap_cons, List.append_assoc, List.append_assoc, ← ih, List.cons_append]
    cases yss <;> simp [intercalate_cons]

/-- with a separator after each list -/
theorem intercalate_append {α : Type} (a : α) {xss : List (List α)} (h : xss ≠ []) :
    [a].intercalate xss ++ [a] = xss.flatMap (· ++ [a]) := by
  obtain ⟨yss, xs, rfl⟩ := (List.eq_nil_or_concat' xss).resolve_left h
  simp [intercalate_snoc]

/-! ## The tokens of a document -/

namespace Token

def isNumber : Token → Bool
  | number _ => true
  | _ => false

end Token

/-- no two numbers stand side by side -/
def Apart (ts : List Token) : Prop := ts.IsChain fun t t' => ¬ (t.isNumber = true ∧ t'.isNumber = true)

namespace Apart

theorem singleton (t : Token) : Apart [t] := List.isChain_singleton t

/-- another token keeps numbers apart -/
theorem append_cons {ts us : List Token} {t : Token} (ht : t.isNumber = false) (hts : Apart ts) (hus : Apart us) :
    Apart (ts ++ t :: us) := by
  refine List.isChain_append.2 ⟨hts, List.isChain_cons.2 ⟨fun u _ h => ?_, hus⟩, fun u _ v hv h => ?_⟩
  · rw [ht] at h
    exact Bool.false_ne_true h.1
  · obtain rfl : t = v := by simpa using hv
    rw [ht] at h
    exact Bool.false_ne_true h.2

theorem cons {us : List Token} {t : Token} (ht : t.isNumber = false) (hus : Apart us) : Apart (t :: us) :=
  append_cons ht List.isChain_nil hus

theorem intercalate {tss : List (List Token)} (h : ∀ ts ∈ tss, Apart ts) : Apart ([.comma].intercalate tss) := by
  induction tss with
  | nil => exact List.isChain_nil
  | cons ts tss ih =>
    have htail := ih fun us hus => h us (List.mem_cons_of_mem ts hus)
    cases tss with
    | nil => simpa [List.intercalate] using h ts List.mem_cons_self
    | cons us tss =>
      rw [intercalate_cons] at htail
      rw [intercalate_cons, List.flatMap_cons, List.cons_append]
      exact append_cons rfl (h ts List.mem_cons_self) htail

end Apart

namespace Doc.Spelling

theorem apart {d : Doc} {ts : List Token} (h : d.Spelling ts) : Apart ts := by
  induction h with
  | null | bool | number | text => exact .singleton _
  | array _ ih =>
    refine .cons rfl (.append_cons rfl (.intercalate fun ts hts => ?_) List.isChain_nil)
    obtain ⟨i, hi, rfl⟩ := List.mem_map.1 hts
    exact ih i hi
  | object _ ih =>
    refine .cons rfl (.append_cons rfl (.intercalate fun ts hts => ?_) List.isChain_nil)
    obtain ⟨m, hm, rfl⟩ := List.mem_map.1 hts
    exact .cons rfl (.cons rfl (ih m hm))

end Doc.Spelling

theorem mem_of_mem_intercalate {α : Type} {a x : α} {xss : List (List α)} (h : x ∈ [a].intercalate xss) :
    x = a ∨ ∃ xs ∈ xss, x ∈ xs := by
  cases xss with
  | nil => cases h
  | cons xs xss =>
    rw [intercalate_cons, List.mem_append, List.mem_flatMap] at h
    rcases h with h | ⟨ys, hys, h⟩
    · exact Or.inr ⟨xs, List.mem_cons_self, h⟩
    · rcases List.mem_cons.1 h with h | h
      · exact Or.inl h
      · exact Or.inr ⟨ys, List.mem_cons_of_mem xs hys, h⟩

theorem Doc.Spelling.bad_not_mem {d : Doc} {ts : List Token} (h : d.Spelling ts) : .bad ∉ ts := by
  induction h with
  | null | bool | number | text => simp
  | array _ ih =>
    intro hbad
    simp only [List.mem_cons, List.mem_append, reduceCtorEq, List.not_mem_nil, or_false, false_or] at hbad
    rcases mem_of_mem_intercalate hbad with hbad | ⟨ts, hts, hbad⟩
    · cases hbad
    · obtain ⟨i, hi, rfl⟩ := List.mem_map.1 hts
      exact ih i hi hbad
  | object _ ih =>
    intro hbad
    simp only [List.mem_cons, List.mem_append, reduceCtorEq, List.not_mem_nil, or_false, false_or] at hbad
    rcases mem_of_mem_intercalate hbad with hbad | ⟨ts, hts, hbad⟩
    · cases hbad
    · obtain ⟨m, hm, rfl⟩ := List.mem_map.1 hts
      simp only [memberTokens, List.mem_cons, reduceCtorEq, false_or] at hbad
      exact ih m hm hbad

end ReplicatedOrders.Json
