/-
Records: what has to stand in a document for a decoder to take it.

A decoder goes down a document with the number of levels that may still be nested. How many these are matters only to
whether it succeeds: with as many, or with as many as the document has, it reads the same. `Decoder.Settled` says so of
one decoder, and a record has it from its fields.
- `Doc.value?_of_enough`: the value of a document does not depend on the levels.
- `Slot.read_eq_ok_iff`, `Decoder.nullable_eq_ok_iff`, `Decoder.record_eq_ok_iff`: the parts of a decoder of records.
- `readMembers_of_step`: a relation between two readers of fields is one between their runs over all members.
- `readMembers_member`, `readMembers_kept`: one member of a run, and what holds from there on.
- `Doc.writtenAs_record`: the text of an object from the texts of its members.
- `decode_of_writtenAs`: the text of a document is decoded as the document is.
-/
import ReplicatedOrders.Proofs.Json.Acceptance

namespace ReplicatedOrders.Json

/-! ## Levels -/

/-- as many levels as before, or as many as the document has -/
def Enough (levels levels' : Nat) (d : Doc) : Prop := levels ≤ levels' ∨ d.depth ≤ levels'

namespace Enough

variable {levels levels' : Nat}

theorem item {ds : List Doc} (h : Enough (levels + 1) (levels' + 1) (.array ds)) {d : Doc} (hd : d ∈ ds) :
    Enough levels levels' d := by
  rcases h with h | h
  · exact Or.inl (Nat.le_of_succ_le_succ h)
  · exact Or.inr ((Doc.depthItems_le_iff ds levels').1 (Nat.le_of_succ_le_succ h) d hd)

theorem member {ms : List (Option String × Doc)} (h : Enough (levels + 1) (levels' + 1) (.object ms))
    {m : Option String × Doc} (hm : m ∈ ms) : Enough levels levels' m.2 := by
  rcases h with h | h
  · exact Or.inl (Nat.le_of_succ_le_succ h)
  · exact Or.inr ((Doc.depthMembers_le_iff ms levels').1 (Nat.le_of_succ_le_succ h) m hm)

/-- there is a level for what nests -/
theorem exists_succ {d : Doc} (h : Enough (levels + 1) levels' d) (hd : 0 < d.depth) : ∃ k, levels' = k + 1 := by
  rcases h with h | h
  · exact ⟨levels' - 1, by omega⟩
  · exact ⟨levels' - 1, by omega⟩

end Enough

namespace Doc

theorem itemValues?_congr {levels levels' : Nat} {ds : List Doc} {vs : List Value}
    (h : ∀ d ∈ ds, ∀ v, d.value? levels = some v → d.value? levels' = some v) (hvs : itemValues? levels ds = some vs) :
    itemValues? levels' ds = some vs := by
  induction ds generalizing vs with
  | nil => exact hvs
  | cons d ds ih =>
    simp only [itemValues?, Option.bind_eq_bind, Option.bind_eq_some_iff, Option.pure_def, Option.some.injEq] at hvs ⊢
    obtain ⟨v, hv, vs', hvs', rfl⟩ := hvs
    obtain ⟨hd, hds⟩ := List.forall_mem_cons.1 h
    exact ⟨v, hd v hv, vs', ih hds hvs', rfl⟩

theorem memberValues?_congr {levels levels' : Nat} {ms : List (Option String × Doc)} {vs : Members}
    (h : ∀ m ∈ ms, ∀ v, m.2.value? levels = some v → m.2.value? levels' = some v)
    (hvs : memberValues? levels ms = some vs) : memberValues? levels' ms = some vs := by
  induction ms generalizing vs with
  | nil => exact hvs
  | cons m ms ih =>
    obtain ⟨key, d⟩ := m
    simp only [memberValues?, Option.bind_eq_bind, Option.bind_eq_some_iff, Option.pure_def,
      Option.some.injEq] at hvs ⊢
    obtain ⟨k, hk, v, hv, vs', hvs', rfl⟩ := hvs
    obtain ⟨hm, hms⟩ := List.forall_mem_cons.1 h
    exact ⟨k, hk, v, hm v hv, vs', ih hms hvs', rfl⟩

/-- the value of a document does not depend on the levels, if they are enough -/
theorem value?_of_enough {levels levels' : Nat} {d : Doc} {v : Value} (hv : d.value? levels = some v)
    (h : Enough levels levels' d) : d.value? levels' = some v := by
  induction levels generalizing levels' d v with
  | zero =>
    cases d with
    | array | object => cases hv
    | null | bool | number | text | unreadable | cut => exact hv
  | succ levels ih =>
    cases d with
    | null | bool | number | text | unreadable | cut => exact hv
    | array ds =>
      obtain ⟨levels', rfl⟩ := h.exists_succ (Nat.succ_pos _)
      obtain ⟨vs, hvs, rfl⟩ := Option.map_eq_some_iff.1 hv
      exact Option.map_eq_some_iff.2 ⟨vs, itemValues?_congr (fun d hd v hv => ih hv (h.item hd)) hvs, rfl⟩
    | object ms =>
      obtain ⟨levels', rfl⟩ := h.exists_succ (Nat.succ_pos _)
      obtain ⟨vs, hvs, rfl⟩ := Option.map_eq_some_iff.1 hv
      exact Option.map_eq_some_iff.2 ⟨vs, memberValues?_congr (fun m hm v hv => ih hv (h.member hm)) hvs, rfl⟩

end Doc

/-! ## Parts of a record -/

variable {α : Type}

theorem mismatch_ne_ok {wanted : Wanted} {d : Doc} {a : α} : mismatch wanted d ≠ .ok a := by
  cases d <;> exact nofun

theorem Slot.read_eq_ok_iff {slot slot' : Slot α} {name : String} {decode : Decoder α} {levels : Nat} {d : Doc} :
    slot.read name decode levels d = .ok slot' ↔ slot = none ∧ ∃ a, decode levels d = .ok a ∧ slot' = some a := by
  cases slot with
  | some a => simp [Slot.read, fault]
  | none =>
    cases h : decode levels d with
    | ok a => simp [Slot.read, h, Except.map, eq_comm]
    | error e => simp [Slot.read, h, Except.map]

theorem Slot.read_congr {decode : Decoder α} {levels : Nat} {v w : Doc} (h : decode levels v = decode levels w)
    (slot : Slot α) (name : String) : slot.read name decode levels v = slot.read name decode levels w := by
  cases slot with
  | none => exact congrArg (Except.map some) h
  | some a => rfl

theorem Slot.read_map {β : Type} {f : α → β} {decode : Decoder α} {decode' : Decoder β} {levels : Nat} {d : Doc}
    (hdecode : ∀ a, decode levels d = .ok a → decode' levels d = .ok (f a)) {slot slot' : Slot α} {name : String}
    (h : slot.read name decode levels d = .ok slot') :
    Slot.read (slot.map f) name decode' levels d = .ok (slot'.map f) := by
  obtain ⟨rfl, a, ha, rfl⟩ := Slot.read_eq_ok_iff.1 h
  exact Slot.read_eq_ok_iff.2 ⟨rfl, f a, hdecode a ha, rfl⟩

theorem skip_eq_ok_iff {a b : α} {d : Doc} : skip a d = .ok b ↔ d.wellFormed = true ∧ a = b := by
  rw [skip]
  split_ifs with h <;> simp [h]

theorem bind_eq_ok_iff {β : Type} {x : Except JsonError α} {k : α → Except JsonError β} {b : β} :
    (x >>= k) = .ok b ↔ ∃ a, x = .ok a ∧ k a = .ok b := by
  cases x <;> simp [bind, Except.bind]

theorem bind_pure_eq_ok_iff {β : Type} {x : Except JsonError α} {f : α → β} {b : β} :
    (x >>= fun a => pure (f a)) = .ok b ↔ ∃ a, x = .ok a ∧ f a = b := by
  rw [bind_eq_ok_iff]
  simp [pure, Except.pure]

namespace Decoder

theorem value_eq_ok_iff {levels : Nat} {d : Doc} {v : Value} : value levels d = .ok v ↔ d.value? levels = some v := by
  rw [value]
  cases d.value? levels <;> simp

theorem nullable_eq_ok_iff {decode : Decoder α} {levels : Nat} {d : Doc} {x : Option α} :
    nullable decode levels d = .ok x ↔
      d = .null ∧ x = none ∨ d ≠ .null ∧ ∃ a, decode levels d = .ok a ∧ x = some a := by
  by_cases hd : d = .null
  · subst hd
    simp [nullable, eq_comm]
  · rw [nullable.eq_2 _ _ _ hd]
    cases h : decode levels d with
    | ok a => simp [Except.map, hd, eq_comm]
    | error e => simp [Except.map, hd]

theorem of_nullable {decode : Decoder α} {levels : Nat} {d : Doc} {a : α}
    (h : nullable decode levels d = .ok (some a)) : decode levels d = .ok a := by
  rcases nullable_eq_ok_iff.1 h with ⟨-, hnone⟩ | ⟨-, b, hb, hsome⟩
  · cases hnone
  · rw [hb, Option.some.inj hsome]

/-- a record stands as an object or as an array, and takes one level -/
theorem record_eq_ok_iff {name : String} {ofMembers : Nat → List (Option String × Doc) → Except JsonError α}
    {ofItems : Nat → Items α} {levels : Nat} {d : Doc} {a : α} :
    record name ofMembers ofItems levels d = .ok a ↔
      ∃ inner, levels = inner + 1 ∧ ((∃ ms, d = .object ms ∧ ofMembers inner ms = .ok a) ∨
        ∃ ds, d = .array ds ∧ (ofItems inner).run ds = .ok a) := by
  cases d with
  | object ms => cases levels <;> simp [record]
  | array ds => cases levels <;> simp [record]
  | _ => simp [record, mismatch_ne_ok]

/-- what a decoder reads does not depend on the levels, if they are enough -/
def Settled (decode : Decoder α) : Prop :=
  ∀ levels levels' d a, decode levels d = .ok a → Enough levels levels' d → decode levels' d = .ok a

theorem value_settled : Settled value := by
  intro levels levels' d v hv h
  exact value_eq_ok_iff.2 (Doc.value?_of_enough (value_eq_ok_iff.1 hv) h)

theorem Settled.slot {decode : Decoder α} (hdecode : decode.Settled) {levels levels' : Nat} {d : Doc}
    (henough : Enough levels levels' d) {slot slot' : Slot α} {name : String}
    (h : slot.read name decode levels d = .ok slot') : slot.read name decode levels' d = .ok slot' := by
  obtain ⟨hempty, a, ha, rfl⟩ := Slot.read_eq_ok_iff.1 h
  exact Slot.read_eq_ok_iff.2 ⟨hempty, a, hdecode _ _ _ _ ha henough, rfl⟩

end Decoder

/-! ## Members -/

variable {σ τ : Type} {field : σ → String → Doc → Except JsonError σ} {field' : τ → String → Doc → Except JsonError τ}

theorem readMembers_cons_eq_ok_iff {s s' : σ} {m : Option String × Doc} {ms : List (Option String × Doc)} :
    readMembers field s (m :: ms) = .ok s' ↔
      ∃ key s₁, m.1 = some key ∧ field s key m.2 = .ok s₁ ∧ readMembers field s₁ ms = .ok s' := by
  obtain ⟨key, d⟩ := m
  cases key with
  | none => simp [readMembers]
  | some key =>
    rw [readMembers]
    cases h : field s key d with
    | ok s₁ => simp [h, bind, Except.bind]
    | error e => simp [h, bind, Except.bind]

/-- readers that stay related member by member end related -/
theorem readMembers_of_step {R : σ → τ → Prop} {ms : List (Option String × Doc)}
    (hstep : ∀ m ∈ ms, ∀ key s s' t, R s t → field s key m.2 = .ok s' → ∃ t', field' t key m.2 = .ok t' ∧ R s' t')
    {s s' : σ} {t : τ} (hR : R s t) (h : readMembers field s ms = .ok s') :
    ∃ t', readMembers field' t ms = .ok t' ∧ R s' t' := by
  induction ms generalizing s t with
  | nil =>
    obtain rfl := Except.ok.inj h
    exact ⟨t, rfl, hR⟩
  | cons m ms ih =>
    obtain ⟨hm, hms⟩ := List.forall_mem_cons.1 hstep
    obtain ⟨key, s₁, hkey, hfield, hrest⟩ := readMembers_cons_eq_ok_iff.1 h
    obtain ⟨t₁, hfield', hR₁⟩ := hm key s s₁ t hR hfield
    obtain ⟨t', hrest', hR'⟩ := ih hms hR₁ hrest
    exact ⟨t', readMembers_cons_eq_ok_iff.2 ⟨key, t₁, hkey, hfield', hrest'⟩, hR'⟩

theorem readMembers_append {s : σ} (before after : List (Option String × Doc)) :
    readMembers field s (before ++ after) = readMembers field s before >>= fun s' => readMembers field s' after := by
  induction before generalizing s with
  | nil => rfl
  | cons m before ih =>
    obtain ⟨key, d⟩ := m
    cases key with
    | none => rfl
    | some key =>
      simp only [List.cons_append, readMembers]
      cases field s key d with
      | ok s' => exact ih
      | error e => rfl

theorem readMembers_congr {name : String} {v w : Doc} (h : ∀ s, field s name v = field s name w) (s : σ)
    (before after : List (Option String × Doc)) :
    readMembers field s (before ++ (some name, v) :: after) =
      readMembers field s (before ++ (some name, w) :: after) := by
  simp only [readMembers_append, readMembers, h]

/-- a member is read at some point, and the others after it -/
theorem readMembers_member {name : String} {v : Doc} {s s' : σ} {before after : List (Option String × Doc)}
    (h : readMembers field s (before ++ (some name, v) :: after) = .ok s') :
    ∃ s₁ s₂, field s₁ name v = .ok s₂ ∧ readMembers field s₂ after = .ok s' := by
  rw [readMembers_append] at h
  obtain ⟨s₁, -, hrest⟩ := bind_eq_ok_iff.1 h
  obtain ⟨key, s₂, hkey, hfield, hafter⟩ := readMembers_cons_eq_ok_iff.1 hrest
  obtain rfl := Option.some.inj hkey
  exact ⟨s₁, s₂, hfield, hafter⟩

/-- what every field keeps is so at the end -/
theorem readMembers_kept {P : σ → Prop} (hkeep : ∀ s s' key d, P s → field s key d = .ok s' → P s') {s s' : σ}
    {ms : List (Option String × Doc)} (hs : P s) (h : readMembers field s ms = .ok s') : P s' := by
  induction ms generalizing s with
  | nil =>
    obtain rfl := Except.ok.inj h
    exact hs
  | cons m ms ih =>
    obtain ⟨key, s₁, -, hfield, hrest⟩ := readMembers_cons_eq_ok_iff.1 h
    exact ih (hkeep _ _ _ _ hs hfield) hrest

/-! ## Items -/

namespace Items

variable {β : Type}

theorem run_pure_eq_ok_iff {a b : α} {ds : List Doc} : (pure a : Items α).run ds = .ok b ↔ ds = [] ∧ b = a := by
  cases ds with
  | nil =>
    show (Except.ok a : Except JsonError α) = .ok b ↔ _
    simp [eq_comm]
  | cons d ds =>
    show (Except.error .malformed : Except JsonError α) = .ok b ↔ _
    simp

/-- the first item, or what stands for it at the end, and then the others -/
theorem run_nextOr {missing : Except JsonError α} {decode : Decoder α} {levels : Nat} {k : α → Items β}
    (ds : List Doc) :
    (nextOr missing decode levels >>= k).run ds =
      ds.head?.elim missing (decode levels) >>= fun a => (k a).run ds.tail := by
  cases ds with
  | nil => cases missing <;> rfl
  | cons d ds =>
    show (nextOr missing decode levels >>= k).run (d :: ds) = decode levels d >>= fun a => (k a).run ds
    cases h : decode levels d <;> simp [run, nextOr, bind, StateT.bind, Except.bind, Except.map, h]

/-- where an item stands, it is read first and then the rest -/
theorem run_nextOr_cons {missing : Except JsonError α} {decode : Decoder α} {levels : Nat} {k : α → Items β}
    (d : Doc) (ds : List Doc) :
    (nextOr missing decode levels >>= k).run (d :: ds) = decode levels d >>= fun a => (k a).run ds :=
  run_nextOr (d :: ds)

theorem run_nextOr_eq_ok_iff {missing : Except JsonError α} {decode : Decoder α} {levels : Nat} {k : α → Items β}
    {ds : List Doc} {b : β} :
    (nextOr missing decode levels >>= k).run ds = .ok b ↔
      ∃ a, ds.head?.elim missing (decode levels) = .ok a ∧ (k a).run ds.tail = .ok b := by
  rw [run_nextOr, bind_eq_ok_iff]

/-- an item stands if nothing else gives what was read -/
theorem exists_cons {missing : Except JsonError α} {read : Doc → Except JsonError α} {ds : List Doc} {a : α}
    (h : ds.head?.elim missing read = .ok a) (hmissing : missing ≠ .ok a) :
    ∃ d ds', ds = d :: ds' ∧ read d = .ok a := by
  cases ds with
  | nil => exact absurd h hmissing
  | cons d ds => exact ⟨d, ds, rfl, h⟩

end Items

/-! ## One field -/

/-- puts a document into a record as one field: as a member of this name, or as the item at this place -/
inductive Doc.Field (name : String) (place : Nat) : (Doc → Doc) → Prop where
  | member (before after : List (Option String × Doc)) :
    Field name place fun d => .object (before ++ (some name, d) :: after)
  | item {before : List Doc} (after : List Doc) (h : before.length = place) :
    Field name place fun d => .array (before ++ d :: after)

/-! ## Texts -/

theorem Lexemes.append {ts us : List Token} {cs cs' : List Char} (h : Lexemes ts cs) (h' : Lexemes us cs') :
    Lexemes (ts ++ us) (cs ++ cs') := by
  induction h with
  | @nil blanks hblanks =>
    cases h' with
    | nil hblanks' => exact .nil (List.forall_mem_append.2 ⟨hblanks, hblanks'⟩)
    | cons hblanks' ht hts =>
      rw [List.nil_append, ← List.append_assoc]
      exact .cons (List.forall_mem_append.2 ⟨hblanks, hblanks'⟩) ht hts
  | cons hblanks ht _ ih =>
    rw [List.cons_append, List.append_assoc, List.append_assoc]
    exact .cons hblanks ht ih

theorem Lexemes.token {t : Token} {cs : List Char} (ht : t.Spelling cs) : Lexemes [t] cs := .singleton no_blanks ht

theorem Lexemes.quote (s : String) : Lexemes [.text (some s)] (Json.quote s) := by
  have hlex : lex (String.ofList (Json.quote s)) = [.text (some s)] := by
    rw [lex, String.toList_ofList, ← List.append_nil (Json.quote s), lexFrom_quote]
    rfl
  rw [← String.toList_ofList (l := Json.quote s)]
  exact (lex_eq_iff (.singleton _) (by simp) _).1 hlex

theorem Lexemes.commas {tss : List (List Token)} {css : List (List Char)} (h : List.Forall₂ Lexemes tss css) :
    Lexemes ([.comma].intercalate tss) ([','].intercalate css) := by
  have htail : ∀ {tss : List (List Token)} {css : List (List Char)}, List.Forall₂ Lexemes tss css →
      Lexemes (tss.flatMap (.comma :: ·)) (css.flatMap (',' :: ·)) := by
    intro tss css h
    induction h with
    | nil => exact .nil no_blanks
    | cons hts _ ih =>
      exact ((Lexemes.token .comma).append hts).append ih
  cases h with
  | nil => exact .nil no_blanks
  | cons hts hrest =>
    rw [intercalate_cons, intercalate_cons]
    exact hts.append (htail hrest)

/-- the text of an object whose members have these keys and texts -/
def objectText (members : List (String × String)) : String :=
  "\x7b" ++ ",".intercalate (members.map fun m => String.ofList (quote m.1) ++ ":" ++ m.2) ++ "\x7d"

/-- an object whose members stand in the text of each is written so -/
theorem Doc.writtenAs_record {fields : List (String × Doc × String)} (h : ∀ f ∈ fields, f.2.1.WrittenAs f.2.2) :
    (Doc.record (fields.map fun f => (f.1, f.2.1))).WrittenAs (objectText (fields.map fun f => (f.1, f.2.2))) := by
  have hmembers : ∃ members : List ((Option String × Doc) × List Token),
      members.map (fun m => m.1) = fields.map (fun f => (some f.1, f.2.1)) ∧ (∀ m ∈ members, m.1.2.Spelling m.2) ∧
        List.Forall₂ Lexemes (members.map memberTokens)
          (fields.map fun f => Json.quote f.1 ++ ':' :: f.2.2.toList) := by
    induction fields with
    | nil => exact ⟨[], rfl, nofun, .nil⟩
    | cons f fields ih =>
      obtain ⟨⟨ts, hts, hlexemes⟩, hrest⟩ := List.forall_mem_cons.1 h
      obtain ⟨members, hkeys, hspelling, hall⟩ := ih hrest
      have hmember : Lexemes (memberTokens ((some f.1, f.2.1), ts)) (Json.quote f.1 ++ ':' :: f.2.2.toList) :=
        (Lexemes.quote f.1).append ((Lexemes.token .colon).append hlexemes)
      exact ⟨((some f.1, f.2.1), ts) :: members, congrArg (_ :: ·) hkeys, List.forall_mem_cons.2 ⟨hts, hspelling⟩,
        .cons hmember hall⟩
  obtain ⟨members, hkeys, hspelling, hall⟩ := hmembers
  have hobject := Doc.Spelling.object hspelling
  rw [hkeys] at hobject
  have htext : (objectText (fields.map fun f => (f.1, f.2.2))).toList =
      ['\x7b'] ++ ([','].intercalate (fields.map fun f => Json.quote f.1 ++ ':' :: f.2.2.toList) ++ ['\x7d']) := by
    simp only [objectText, String.toList_append, String.toList_intercalate, List.map_map, Function.comp_def,
      String.toList_ofList, List.append_assoc]
    rfl
  rw [record, List.map_map]
  refine ⟨_, hobject, ?_⟩
  rw [htext]
  exact (Lexemes.token .openObject).append ((Lexemes.commas hall).append (.token .closeObject))

/-- the text of a document is decoded as the document is -/
theorem decode_of_writtenAs (decoder : Decoder α) {d : Doc} {t : String} (h : d.WrittenAs t) :
    decode decoder t = decoder maxDepth d := by
  rw [decode, (Doc.writtenAs_iff.1 h).1]
  cases hd : decoder maxDepth d <;> simp [hd, bind, Except.bind, pure, Except.pure]

end ReplicatedOrders.Json
