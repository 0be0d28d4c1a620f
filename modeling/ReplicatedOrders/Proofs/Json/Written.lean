/-
Written documents: what the compact text of a document is read back as.

A real number is read back as whatever its text denotes, which need not be the number itself; everything else is read
back as it is (`Doc.reread`). The proof meets in the middle at the tokens that the text of a document is made of
(`Doc.tokens`): the scanner takes the text apart into them, and the stack machine puts them together again. Both halves
are stated with what follows in the text, so that items and members can be strung together.
- `lexFrom_chars`: the text of a document gives its tokens.
- `spelling_tokens`: the tokens of a document are written for the document that is read back.
- `decode_compact_reread`: so decoding a written document is decoding that one.
- `decode_compact`: a document without real numbers is read back as itself.
-/
import ReplicatedOrders.Json.Decode
import ReplicatedOrders.Proofs.Json.Recognition

namespace ReplicatedOrders.Json

/-- documents with a text for every part -/
inductive Doc.Complete : Doc → Prop where
  | null : Complete .null
  | bool (b : Bool) : Complete (.bool b)
  | number (n : Number) : Complete (.number n)
  | text (s : String) : Complete (.text s)
  | array {ds : List Doc} (h : ∀ d ∈ ds, Complete d) : Complete (.array ds)
  | record {fields : List (String × Doc)} (h : ∀ f ∈ fields, Complete f.2) : Complete (.record fields)

/-- complete documents without real numbers -/
inductive Doc.Plain : Doc → Prop where
  | null : Plain .null
  | bool (b : Bool) : Plain (.bool b)
  | whole (n : Whole) : Plain (.number (.whole n))
  | text (s : String) : Plain (.text s)
  | array {ds : List Doc} (h : ∀ d ∈ ds, Plain d) : Plain (.array ds)
  | record {fields : List (String × Doc)} (h : ∀ f ∈ fields, Plain f.2) : Plain (.record fields)

theorem Doc.Plain.complete {d : Doc} (h : d.Plain) : d.Complete := by
  induction h with
  | null => exact .null
  | bool b => exact .bool b
  | whole n => exact .number _
  | text s => exact .text s
  | array _ ih => exact .array ih
  | record _ ih => exact .record ih

/-! ## What is read back -/

/-- what the text of a number is read back as -/
def Number.reread (n : Number) : Option Number :=
  match lex n.text with
  | [.number m] => m
  | _ => none

namespace Doc

mutual

/-- a document with every number as its text is read back -/
def reread : Doc → Doc
  | number n => n.reread.elim unreadable number
  | array ds => array (rereadItems ds)
  | object ms => object (rereadMembers ms)
  | null => null
  | bool b => bool b
  | text s => text s
  | unreadable => unreadable
  | cut => cut

def rereadItems : List Doc → List Doc
  | [] => []
  | d :: ds => reread d :: rereadItems ds

def rereadMembers : List (Option String × Doc) → List (Option String × Doc)
  | [] => []
  | (key, d) :: ms => (key, reread d) :: rereadMembers ms

end

theorem rereadItems_eq_map (ds : List Doc) : rereadItems ds = ds.map reread := by
  induction ds with
  | nil => rfl
  | cons d ds ih => simp [rereadItems, ih]

theorem rereadMembers_eq_map (ms : List (Option String × Doc)) :
    rereadMembers ms = ms.map fun m => (m.1, reread m.2) := by
  induction ms with
  | nil => rfl
  | cons m ms ih => simp [rereadMembers, ih]

theorem reread_record (fields : List (String × Doc)) :
    (record fields).reread = record (fields.map fun f => (f.1, f.2.reread)) := by
  simp [record, reread, rereadMembers_eq_map]

end Doc

/-! ## The tokens of a document -/

namespace Doc

mutual

def tokens : Doc → List Token
  | null => [.null]
  | bool b => [.bool b]
  | number n => [.number n.reread]
  | text s => [.text (some s)]
  | unreadable => []
  | cut => []
  | array [] => [.openArray, .closeArray]
  | array (d :: ds) => .openArray :: tokens d ++ tokensItems ds ++ [.closeArray]
  | object [] => [.openObject, .closeObject]
  | object ((key, d) :: ms) => .openObject :: .text key :: .colon :: tokens d ++ tokensMembers ms ++ [.closeObject]

/-- items after the first, each behind a comma -/
def tokensItems : List Doc → List Token
  | [] => []
  | d :: ds => .comma :: tokens d ++ tokensItems ds

/-- members after the first, each behind a comma -/
def tokensMembers : List (Option String × Doc) → List Token
  | [] => []
  | (key, d) :: ms => .comma :: .text key :: .colon :: tokens d ++ tokensMembers ms

end

end Doc

/-! ## Strings -/

theorem toNat_ofNat_digits {c : Char} (h : c.toNat < 0x20) :
    Numeral.digitIn 16 (Nat.digitChar (c.toNat / 16)) = some (c.toNat / 16) ∧
      Numeral.digitIn 16 (Nat.digitChar (c.toNat % 16)) = some (c.toNat % 16) := by
  have : ∀ m : Fin 16, Numeral.digitIn 16 (Nat.digitChar m.val) = some m.val := by decide
  exact ⟨this ⟨c.toNat / 16, by omega⟩, this ⟨c.toNat % 16, by omega⟩⟩

/-- a control character given by number is read as itself -/
theorem lexFrom_controlCode (t : TextScan) {c : Char} (h : c.toNat < 0x20) (rest : List Char) :
    lexFrom (.text t) (controlCode c ++ rest) = lexFrom (.text (t.push c)) rest := by
  obtain ⟨h1, h2⟩ := toNat_ofNat_digits h
  have hval : Numeral.ofDigits 16 [0, 0, c.toNat / 16, c.toNat % 16] = c.toNat := by
    simp only [Numeral.ofDigits, List.foldl_cons, List.foldl_nil]
    omega
  have hpush : t.pushUnit c.toNat = t.push c := by
    rw [TextScan.pushUnit, if_neg (by omega), if_neg (by omega), Char.ofNat_toNat]
  have h0 : Numeral.digitIn 16 '0' = some 0 := by decide
  simp [controlCode, lexFrom, feed, h0, h1, h2, hval, hpush]

/-- a written character is read as itself -/
theorem lexFrom_escapeChar (t : TextScan) (c : Char) (rest : List Char) :
    lexFrom (.text t) (escapeChar c ++ rest) = lexFrom (.text (t.push c)) rest := by
  unfold escapeChar
  split_ifs with hq hb hc
  · subst hq; rfl
  · subst hb; rfl
  · split
    · rfl
    · rfl
    · rfl
    · rfl
    · rfl
    · exact lexFrom_controlCode t hc rest
  · simp [lexFrom, feed, hq, hb, hc]

theorem lexFrom_escaped (t : TextScan) (hh : t.high = none) (hp : t.paired = true) (cs rest : List Char) :
    lexFrom (.text t) (cs.flatMap escapeChar ++ '"' :: rest) =
      .text (some (String.ofList (t.chars.reverse ++ cs))) :: lexFrom .gap rest := by
  induction cs generalizing t with
  | nil => simp [lexFrom, feed, TextScan.token, hh, hp]
  | cons c cs ih =>
    rw [List.flatMap_cons, List.append_assoc, lexFrom_escapeChar, ih (t.push c) rfl (by simp [TextScan.push, hh, hp])]
    simp [TextScan.push]

/-- a written string is read as one token -/
theorem lexFrom_quote (s : String) (rest : List Char) :
    lexFrom .gap (quote s ++ rest) = .text (some s) :: lexFrom .gap rest := by
  have h := lexFrom_escaped {} rfl rfl s.toList rest
  simp only [List.reverse_nil, List.nil_append, String.ofList_toList] at h
  rw [← h]
  simp [quote, lexFrom, feed, begin]

/-! ## Numbers -/

/-- what follows a value inside a container, or the end of the text -/
def Follows (rest : List Char) : Prop := ∀ c cs, rest = c :: cs → c = ',' ∨ c = ']' ∨ c = '\x7d'

theorem follows_nil : Follows [] := by
  intro c cs h
  cases h

theorem follows_cons {c : Char} (cs : List Char) (h : c = ',' ∨ c = ']' ∨ c = '\x7d') : Follows (c :: cs) := by
  intro c' cs' heq
  rw [← (List.cons.inj heq).1]
  exact h

theorem Follows.stops {rest : List Char} (h : Follows rest) : Stops rest := by
  intro c cs hrest
  rcases h c cs hrest with rfl | rfl | rfl <;> exact ⟨by decide, by decide, by decide, by decide⟩

namespace Number

theorem text_literal (n : Number) : ∃ l : Literal, ∃ plus, l.WellFormed ∧ n.text.toList = l.chars plus := by
  cases n with
  | whole m => exact ⟨m.literal, false, (Leading.decimal _).wellFormed _, m.toList_toString false⟩
  | real x => exact x.text_literal

/-- the text of a number is read as one token -/
theorem lexFrom_text (n : Number) {rest : List Char} (hr : Stops rest) :
    lexFrom .gap (n.text.toList ++ rest) = .number n.reread :: lexFrom .gap rest := by
  obtain ⟨l, plus, hl, htext⟩ := n.text_literal
  have halone : lex n.text = [.number l.number?] := by
    have hlex := l.lexFrom_chars hl plus Stops.nil
    rwa [List.append_nil, ← htext] at hlex
  have hreread : n.reread = l.number? := by rw [reread, halone]
  rw [htext, l.lexFrom_chars hl plus hr, hreread]

/-- a whole number is read back as itself -/
theorem reread_whole (m : Whole) : (whole m).reread = some (whole m) := by
  have hlex := lexFrom_whole m Stops.nil
  rw [List.append_nil] at hlex
  rw [reread, lex, text, hlex]
  rfl

end Number

/-! ## The text of a document -/

/-- the scanner takes the text of `d` apart into its tokens -/
def Lexes (d : Doc) : Prop :=
  ∀ rest, Follows rest → lexFrom .gap (d.chars ++ rest) = d.tokens ++ lexFrom .gap rest

theorem follows_charsItems (ds : List Doc) (rest : List Char) : Follows (Doc.charsItems ds ++ ']' :: rest) := by
  cases ds with
  | nil => exact follows_cons rest (by simp)
  | cons d ds => exact follows_cons _ (by simp)

theorem follows_charsMembers (ms : List (Option String × Doc)) (rest : List Char) :
    Follows (Doc.charsMembers ms ++ '\x7d' :: rest) := by
  cases ms with
  | nil => exact follows_cons rest (by simp)
  | cons m ms => exact follows_cons _ (by simp)

theorem lexFrom_charsItems {ds : List Doc} (h : ∀ d ∈ ds, Lexes d) (rest : List Char) :
    lexFrom .gap (Doc.charsItems ds ++ ']' :: rest) = Doc.tokensItems ds ++ .closeArray :: lexFrom .gap rest := by
  induction ds with
  | nil => rfl
  | cons d ds ih =>
    have hd := h d List.mem_cons_self (Doc.charsItems ds ++ ']' :: rest) (follows_charsItems ds rest)
    rw [ih fun d' hd' => h d' (List.mem_cons_of_mem d hd')] at hd
    simp only [Doc.charsItems, Doc.tokensItems, List.cons_append, List.append_assoc, ← hd]
    rfl

/-- a key and the value after it -/
theorem lexFrom_member {d : Doc} (h : Lexes d) (key : String) {rest : List Char} (hr : Follows rest) :
    lexFrom .gap (Doc.charsKey (some key) ++ ':' :: (d.chars ++ rest)) =
      .text (some key) :: .colon :: (d.tokens ++ lexFrom .gap rest) := by
  rw [← h rest hr]
  exact lexFrom_quote key _

theorem lexFrom_charsMembers {fields : List (String × Doc)} (h : ∀ f ∈ fields, Lexes f.2) (rest : List Char) :
    lexFrom .gap (Doc.charsMembers (fields.map fun f => (some f.1, f.2)) ++ '\x7d' :: rest) =
      Doc.tokensMembers (fields.map fun f => (some f.1, f.2)) ++ .closeObject :: lexFrom .gap rest := by
  induction fields with
  | nil => rfl
  | cons f fields ih =>
    have hf := lexFrom_member (h f List.mem_cons_self) f.1
      (follows_charsMembers (fields.map fun f => (some f.1, f.2)) rest)
    rw [ih fun f' hf' => h f' (List.mem_cons_of_mem f hf')] at hf
    simp only [List.map_cons, Doc.charsMembers, Doc.tokensMembers, List.cons_append, List.append_assoc, ← hf]
    rfl

/-- **The text of a document gives its tokens.** -/
theorem lexFrom_chars {d : Doc} (h : d.Complete) : Lexes d := by
  induction h with
  | null => intro rest _; rfl
  | bool b => intro rest _; cases b <;> rfl
  | number n => intro rest hr; exact n.lexFrom_text hr.stops
  | text s => intro rest _; exact lexFrom_quote s rest
  | @array ds _ ih =>
    intro rest _
    cases ds with
    | nil => rfl
    | cons d ds =>
      have hd := ih d List.mem_cons_self (Doc.charsItems ds ++ ']' :: rest) (follows_charsItems ds rest)
      rw [lexFrom_charsItems fun d' hd' => ih d' (List.mem_cons_of_mem d hd')] at hd
      simp only [Doc.chars, Doc.tokens, List.cons_append, List.append_assoc, List.nil_append, ← hd]
      rfl
  | @record fields _ ih =>
    intro rest _
    cases fields with
    | nil => rfl
    | cons f fields =>
      have hf := lexFrom_member (ih f List.mem_cons_self) f.1
        (follows_charsMembers (fields.map fun f => (some f.1, f.2)) rest)
      rw [lexFrom_charsMembers fun f' hf' => ih f' (List.mem_cons_of_mem f hf')] at hf
      simp only [Doc.record, List.map_cons, Doc.chars, Doc.tokens, List.cons_append, List.append_assoc, List.nil_append,
        ← hf]
      rfl

/-! ## From the tokens back to the document -/

theorem Doc.tokensItems_eq_flatMap (ds : List Doc) :
    tokensItems ds = (ds.map tokens).flatMap (.comma :: ·) := by
  induction ds with
  | nil => rfl
  | cons d ds ih => rw [tokensItems, ih, List.map_cons, List.flatMap_cons]

theorem Doc.tokensMembers_eq_flatMap (ms : List (Option String × Doc)) :
    tokensMembers ms = (ms.map fun m => memberTokens (m, m.2.tokens)).flatMap (.comma :: ·) := by
  induction ms with
  | nil => rfl
  | cons m ms ih => rw [tokensMembers, ih, List.map_cons, List.flatMap_cons]; rfl

/-- **The tokens of a document are written for the document that is read back.** -/
theorem spelling_tokens {d : Doc} (h : d.Complete) : d.reread.Spelling d.tokens := by
  induction h with
  | null => exact .null
  | bool b => exact .bool b
  | number n => exact .number n.reread
  | text s => exact .text (some s)
  | @array ds _ ih =>
    have hitems : ∀ i ∈ ds.map fun d => (d.reread, d.tokens), i.1.Spelling i.2 := by
      intro i hi
      obtain ⟨d, hd, rfl⟩ := List.mem_map.1 hi
      exact ih d hd
    have hspelling := Doc.Spelling.array hitems
    rw [Doc.reread, Doc.rereadItems_eq_map]
    cases ds with
    | nil => exact hspelling
    | cons d ds =>
      rw [Doc.tokens, Doc.tokensItems_eq_flatMap]
      simpa [intercalate_cons, Function.comp_def] using hspelling
  | @record fields _ ih =>
    have hmembers : ∀ m ∈ fields.map fun f => ((some f.1, f.2.reread), f.2.tokens), m.1.2.Spelling m.2 := by
      intro m hm
      obtain ⟨f, hf, rfl⟩ := List.mem_map.1 hm
      exact ih f hf
    have hspelling := Doc.Spelling.object hmembers
    rw [Doc.reread_record]
    cases fields with
    | nil => exact hspelling
    | cons f fields =>
      simp only [Doc.record, List.map_cons, Doc.tokens, Doc.tokensMembers_eq_flatMap]
      simpa [intercalate_cons, memberTokens, Function.comp_def] using hspelling

/-! ## Reading a written document -/

theorem ofTokens_lex_compact {d : Doc} (h : d.Complete) : Doc.ofTokens (lex d.compact) = (d.reread, []) := by
  have hlex := lexFrom_chars h [] follows_nil
  rw [List.append_nil] at hlex
  have hbuild := (spelling_tokens h).assembles .value (Or.inl rfl) [] hosts_nil []
  rw [List.append_nil] at hbuild
  rw [Doc.ofTokens, lex, Doc.compact, String.toList_ofList, hlex, lexFrom, finish, List.append_nil]
  exact hbuild

/-- **Decoding a written document is decoding the document with its numbers read back.** -/
theorem decode_compact_reread {α : Type} (decoder : Decoder α) {d : Doc} (h : d.Complete) :
    decode decoder d.compact = decoder maxDepth d.reread := by
  rw [decode, ofTokens_lex_compact h]
  cases hd : decoder maxDepth d.reread <;> simp [bind, Except.bind, hd, pure, Except.pure]

theorem Doc.Plain.reread_eq {d : Doc} (h : d.Plain) : d.reread = d := by
  induction h with
  | null | bool | text => rfl
  | whole n => rw [reread, Number.reread_whole]; rfl
  | @array ds _ ih =>
    rw [reread, rereadItems_eq_map]
    exact congrArg Doc.array ((List.map_congr_left ih).trans (List.map_id ds))
  | @record fields _ ih =>
    have hfields : ∀ f ∈ fields, (f.1, f.2.reread) = id f := fun f hf => by rw [ih f hf]; rfl
    rw [reread_record, List.map_congr_left hfields, List.map_id]

/-- Decoding a written document without real numbers is decoding the document. -/
theorem decode_compact {α : Type} (decoder : Decoder α) {d : Doc} (h : d.Plain) :
    decode decoder d.compact = decoder maxDepth d := by
  rw [decode_compact_reread decoder h.complete, h.reread_eq]

end ReplicatedOrders.Json
