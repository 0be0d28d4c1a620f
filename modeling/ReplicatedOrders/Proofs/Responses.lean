/-
Responses: what a reply of a chain node says.

The body of a reply is a document. `Doc.Holds` says which documents stand in it as one of its fields, in an object or
in an array, and what a decoder of records reads is read from those.
- `decode_formed`: what is decoded is a text of the grammar.
- `ReadsSlot.some_iff`, `ReadsSlot.decoded`: one field of a record after all members.
- `RpcFault.holds_of_decoder`, `RpcBody.gives_of_decoder`: the fields of an error and of a response.
- `HttpReply.gives_of_reads`: an error counts before a result, and one of them must stand.
- `HttpReply.outcome_of_not_reads`: every other reply is a failure of the exchange.
- `HttpReply.outcome_eq_ok_iff`: the replies with a result.
-/
import ReplicatedOrders.Chain.Rpc
import ReplicatedOrders.Proofs.Json.Records

namespace ReplicatedOrders

namespace Json

/-! ## Forms -/

variable {α σ : Type}

/-- whatever is decoded has the form of a value -/
def Decoder.Formed (decode : Decoder α) : Prop := ∀ levels d a, decode levels d = .ok a → d.wellFormed = true

namespace Decoder

theorem text_eq_ok_iff {levels : Nat} {d : Doc} {s : String} : text levels d = .ok s ↔ d = .text s := by
  cases d with
  | text s' => simp [text]
  | _ => simp [text, mismatch_ne_ok]

/-- a number is read exactly -/
theorem int64_eq_ok {levels : Nat} {d : Doc} {code : Int64} (h : int64 levels d = .ok code) :
    ∃ n : Whole, d = .number (.whole n) ∧ n.val = code.toInt := by
  cases d with
  | number n =>
    cases n with
    | whole n =>
      simp only [int64] at h
      split_ifs at h with hlt
      · obtain rfl := Except.ok.inj h
        have hlower := n.lower
        exact ⟨n, rfl, (Int64.toInt_ofInt_of_le (by omega) (by omega)).symm⟩
      · cases h
    | real x => cases h
  | _ => cases h

theorem text_formed : Formed text := by
  intro levels d s h
  rw [text_eq_ok_iff.1 h]
  rfl

theorem int64_formed : Formed int64 := by
  intro levels d code h
  obtain ⟨n, rfl, -⟩ := int64_eq_ok h
  rfl

theorem Formed.nullable {decode : Decoder α} (h : decode.Formed) : (Decoder.nullable decode).Formed := by
  intro levels d a ha
  rcases nullable_eq_ok_iff.1 ha with ⟨rfl, -⟩ | ⟨-, b, hb, -⟩
  · rfl
  · exact h levels d b hb

theorem Formed.slot {decode : Decoder α} (h : decode.Formed) {slot slot' : Slot α} {name : String} {levels : Nat}
    {d : Doc} (hread : slot.read name decode levels d = .ok slot') : d.wellFormed = true := by
  obtain ⟨-, a, ha, -⟩ := Slot.read_eq_ok_iff.1 hread
  exact h levels d a ha

end Decoder

theorem readMembers_formed {field : σ → String → Doc → Except JsonError σ}
    (hfield : ∀ s s' key d, field s key d = .ok s' → d.wellFormed = true) {s s' : σ} {ms : List (Option String × Doc)}
    (h : readMembers field s ms = .ok s') : (Doc.object ms).wellFormed = true := by
  rw [Doc.wellFormed, Doc.wellFormedMembers_eq_all, List.all_eq_true]
  induction ms generalizing s with
  | nil => exact List.forall_mem_nil _
  | cons m ms ih =>
    obtain ⟨key, s₁, -, hm, hrest⟩ := readMembers_cons_eq_ok_iff.1 h
    exact List.forall_mem_cons.2 ⟨hfield s s₁ key m.2 hm, ih hrest⟩

/-- what is decoded is a text of the grammar -/
theorem decode_formed {decoder : Decoder α} (hdecoder : decoder.Formed) {t : String} {a : α}
    (h : decode decoder t = .ok a) : ∃ d : Doc, d.WrittenAs t ∧ decoder maxDepth d = .ok a := by
  obtain ⟨a', ha, hrest⟩ := bind_eq_ok_iff.1 h
  split_ifs at hrest with hempty
  obtain rfl := Except.ok.inj hrest
  exact ⟨_, Doc.writtenAs_iff.2 ⟨Prod.ext rfl (List.isEmpty_iff.1 hempty), hdecoder _ _ _ ha⟩, ha⟩

/-! ## Fields -/

/-- stands in a record as one field: as a member of this name, or as the item at this place -/
inductive Doc.Holds (name : String) (place : Nat) : Doc → Doc → Prop where
  | member {ms : List (Option String × Doc)} {e : Doc} (h : (some name, e) ∈ ms) : Holds name place (.object ms) e
  | item {ds : List Doc} {e : Doc} (h : ds[place]? = some e) : Holds name place (.array ds) e

theorem Doc.holds_object_iff {name : String} {place : Nat} {ms : List (Option String × Doc)} {e : Doc} :
    Doc.Holds name place (.object ms) e ↔ (some name, e) ∈ ms :=
  ⟨fun h => by cases h with | member h => exact h, .member⟩

theorem Doc.holds_array_iff {name : String} {place : Nat} {ds : List Doc} {e : Doc} :
    Doc.Holds name place (.array ds) e ↔ ds[place]? = some e :=
  ⟨fun h => by cases h with | item h => exact h, .item⟩

/-- the members of one name are read into this slot, once, and the others are not -/
def ReadsSlot (field : σ → String → Doc → Except JsonError σ) (name : String) (decode : Doc → Except JsonError α)
    (slot : σ → Slot α) : Prop :=
  ∀ s s' key d, field s key d = .ok s' →
    if key = name then slot s = none ∧ ∃ a, decode d = .ok a ∧ slot s' = some a else slot s' = slot s

namespace ReadsSlot

variable {field : σ → String → Doc → Except JsonError σ} {name : String} {decode : Doc → Except JsonError α}
  {slot : σ → Slot α}

theorem some_iff (hslot : ReadsSlot field name decode slot) {s s' : σ} {ms : List (Option String × Doc)}
    (h : readMembers field s ms = .ok s') (a : α) :
    slot s' = some a ↔ slot s = some a ∨ ∃ d, (some name, d) ∈ ms ∧ decode d = .ok a := by
  induction ms generalizing s with
  | nil =>
    obtain rfl := Except.ok.inj h
    simp
  | cons m ms ih =>
    obtain ⟨key, s₁, hkey, hm, hrest⟩ := readMembers_cons_eq_ok_iff.1 h
    obtain ⟨key', d⟩ := m
    obtain rfl : key' = some key := hkey
    have hstep := hslot s s₁ key d hm
    rw [ih hrest]
    split_ifs at hstep with hname
    · obtain ⟨hempty, b, hb, hs₁⟩ := hstep
      subst hname
      simp [hempty, hs₁, hb, or_and_right, exists_or]
    · simp [hstep, Ne.symm hname]

theorem decoded (hslot : ReadsSlot field name decode slot) {s s' : σ} {ms : List (Option String × Doc)}
    (h : readMembers field s ms = .ok s') {d : Doc} (hd : (some name, d) ∈ ms) : ∃ a, decode d = .ok a := by
  obtain ⟨before, after, rfl⟩ := List.append_of_mem hd
  obtain ⟨s₁, s₂, hread, -⟩ := readMembers_member h
  have hstep := hslot s₁ s₂ name d hread
  rw [if_pos rfl] at hstep
  obtain ⟨-, a, ha, -⟩ := hstep
  exact ⟨a, ha⟩

end ReadsSlot

/-- a field that is null or does not stand gives nothing, and any other what is decoded from it -/
structure Doc.Gives (name : String) (place : Nat) (d : Doc) (decode : Doc → Except JsonError α) (x : Option α) :
    Prop where
  read : ∀ e, d.Holds name place e → e ≠ .null → ∃ a, decode e = .ok a ∧ x = some a
  absent : (∀ e, d.Holds name place e → e = .null) → x = none

theorem Doc.Gives.of_nullable {name : String} {place : Nat} {d : Doc} {decode : Decoder α} {levels : Nat} {x : Option α}
    (hdecoded : ∀ e, d.Holds name place e → ∃ y, Decoder.nullable decode levels e = .ok y)
    (hsome : ∀ a, x = some a ↔ ∃ e, d.Holds name place e ∧ Decoder.nullable decode levels e = .ok (some a)) :
    d.Gives name place (decode levels) x where
  read e he hne := by
    obtain ⟨y, hy⟩ := hdecoded e he
    rcases Decoder.nullable_eq_ok_iff.1 hy with ⟨hnull, -⟩ | ⟨-, a, ha, rfl⟩
    · exact absurd hnull hne
    · exact ⟨a, ha, (hsome a).2 ⟨e, he, hy⟩⟩
  absent hnull := by
    cases x with
    | none => rfl
    | some a =>
      obtain ⟨e, he, hread⟩ := (hsome a).1 rfl
      rw [hnull e he] at hread
      cases hread

theorem ReadsSlot.gives {field : σ → String → Doc → Except JsonError σ} {name : String} (place : Nat)
    {decode : Decoder α} {levels : Nat} {slot : σ → Slot (Option α)}
    (hslot : ReadsSlot field name (Decoder.nullable decode levels) slot) {s s' : σ} (hempty : slot s = none)
    {ms : List (Option String × Doc)} (h : readMembers field s ms = .ok s') :
    (Doc.object ms).Gives name place (decode levels) (slot s').join := by
  refine .of_nullable (fun e he => hslot.decoded h (Doc.holds_object_iff.1 he)) fun a => ?_
  rw [Option.join_eq_some_iff, hslot.some_iff h, hempty]
  simp [Doc.holds_object_iff]

theorem Doc.gives_item {name : String} {place : Nat} {decode : Decoder α} {levels : Nat} {x : Option α} {ds : List Doc}
    {e : Doc} (he : ds[place]? = some e) (h : Decoder.nullable decode levels e = .ok x) :
    (Doc.array ds).Gives name place (decode levels) x := by
  refine .of_nullable (fun e' he' => ?_) fun a => ?_
  · obtain rfl := Option.some.inj (he.symm.trans (Doc.holds_array_iff.1 he'))
    exact ⟨x, h⟩
  · simp [Doc.holds_array_iff, he, h]

theorem Slot.required_eq_ok_iff {slot : Slot α} {name : String} {a : α} :
    slot.required name = .ok a ↔ slot = some a := by
  cases slot with
  | some b => simp [required]
  | none => exact iff_of_false nofun nofun

/-- both items of a record must stand, and nothing after them -/
theorem Items.run_both {β γ : Type} {first second : ShapeError} {decode : Decoder α} {decode' : Decoder β}
    {levels : Nat} {f : α → β → γ} {ds : List Doc} {c : γ}
    (h : Items.run (do
      let a ← nextOr (fault first) decode levels
      let b ← nextOr (fault second) decode' levels
      return f a b) ds = .ok c) :
    ∃ d d' a b, ds = [d, d'] ∧ decode levels d = .ok a ∧ decode' levels d' = .ok b ∧ c = f a b := by
  obtain ⟨a, hfirst, hrest⟩ := run_nextOr_eq_ok_iff.1 h
  obtain ⟨d, ds', rfl, ha⟩ := exists_cons hfirst nofun
  obtain ⟨b, hsecond, hend⟩ := run_nextOr_eq_ok_iff.1 hrest
  obtain ⟨d', ds'', hds, hb⟩ := exists_cons hsecond nofun
  obtain ⟨hnil, rfl⟩ := run_pure_eq_ok_iff.1 hend
  obtain rfl : ds' = d' :: ds'' := hds
  obtain rfl : ds'' = [] := hnil
  exact ⟨d, d', a, b, rfl, ha, hb, rfl⟩

theorem Items.both_formed {β γ : Type} {first second : ShapeError} {decode : Decoder α} {decode' : Decoder β}
    {levels : Nat} {f : α → β → γ} {ds : List Doc} {c : γ} (hdecode : decode.Formed) (hdecode' : decode'.Formed)
    (h : Items.run (do
      let a ← nextOr (fault first) decode levels
      let b ← nextOr (fault second) decode' levels
      return f a b) ds = .ok c) : (Doc.array ds).wellFormed = true := by
  obtain ⟨d, d', a, b, rfl, ha, hb, -⟩ := run_both h
  simp [Doc.wellFormed, Doc.wellFormedItems, hdecode _ _ _ ha, hdecode' _ _ _ hb]

end Json

open Json

/-! ## Errors -/

namespace RpcFault

variable {levels : Nat} {s s' : Fields} {key : String} {d : Doc} {f : RpcFault}

/-- the field that a member is read as -/
theorem Fields.field_eq_ok (h : Fields.field levels s key d = .ok s') :
    (key = "code" ∧ ∃ slot, s.code.read key Decoder.int64 levels d = .ok slot ∧ s' = { s with code := slot }) ∨
      (key = "message" ∧ ∃ slot, s.text.read key Decoder.text levels d = .ok slot ∧ s' = { s with text := slot }) ∨
      key ≠ "code" ∧ key ≠ "message" ∧ d.wellFormed = true ∧ s' = s := by
  rw [Fields.field] at h
  split_ifs at h with hcode htext
  · obtain ⟨slot, hslot, rfl⟩ := bind_pure_eq_ok_iff.1 h
    exact Or.inl ⟨hcode, slot, hslot, rfl⟩
  · obtain ⟨slot, hslot, rfl⟩ := bind_pure_eq_ok_iff.1 h
    exact Or.inr (Or.inl ⟨htext, slot, hslot, rfl⟩)
  · obtain ⟨hform, rfl⟩ := skip_eq_ok_iff.1 h
    exact Or.inr (Or.inr ⟨hcode, htext, hform, rfl⟩)

theorem Fields.reads_code (levels : Nat) :
    ReadsSlot (Fields.field levels) "code" (Decoder.int64 levels) Fields.code := by
  intro s s' key d h
  rcases field_eq_ok h with ⟨rfl, slot, hslot, rfl⟩ | ⟨rfl, slot, hslot, rfl⟩ | ⟨hcode, -, -, rfl⟩
  · simpa using Slot.read_eq_ok_iff.1 hslot
  · simp
  · simp [hcode]

theorem Fields.reads_text (levels : Nat) :
    ReadsSlot (Fields.field levels) "message" (Decoder.text levels) Fields.text := by
  intro s s' key d h
  rcases field_eq_ok h with ⟨rfl, slot, hslot, rfl⟩ | ⟨rfl, slot, hslot, rfl⟩ | ⟨-, htext, -, rfl⟩
  · simp
  · simpa using Slot.read_eq_ok_iff.1 hslot
  · simp [htext]

theorem decoder_formed : decoder.Formed := by
  intro levels d f h
  obtain ⟨inner, rfl, ⟨ms, rfl, hms⟩ | ⟨ds, rfl, hds⟩⟩ := Decoder.record_eq_ok_iff.1 h
  · obtain ⟨s, hs, -⟩ := bind_eq_ok_iff.1 hms
    refine readMembers_formed (fun s s' key d h => ?_) hs
    rcases Fields.field_eq_ok h with ⟨-, _, hslot, -⟩ | ⟨-, _, hslot, -⟩ | ⟨-, -, hform, -⟩
    · exact Decoder.int64_formed.slot hslot
    · exact Decoder.text_formed.slot hslot
    · exact hform
  · exact Items.both_formed Decoder.int64_formed Decoder.text_formed hds

/-- the code and the text of an error are what stands for them -/
theorem holds_of_decoder (h : decoder levels d = .ok f) :
    (∃ n : Whole, d.Holds "code" 0 (.number (.whole n)) ∧ n.val = f.code.toInt) ∧
      d.Holds "message" 1 (.text f.text) := by
  obtain ⟨inner, rfl, ⟨ms, rfl, hms⟩ | ⟨ds, rfl, hds⟩⟩ := Decoder.record_eq_ok_iff.1 h
  · obtain ⟨s, hs, hclose⟩ := bind_eq_ok_iff.1 hms
    obtain ⟨code, hcode, hrest⟩ := bind_eq_ok_iff.1 hclose
    obtain ⟨text, htext, rfl⟩ := bind_pure_eq_ok_iff.1 hrest
    obtain hnone | ⟨e, he, hread⟩ := ((Fields.reads_code inner).some_iff hs code).1 (Slot.required_eq_ok_iff.1 hcode)
    · cases hnone
    obtain hnone | ⟨e', he', hread'⟩ := ((Fields.reads_text inner).some_iff hs text).1 (Slot.required_eq_ok_iff.1 htext)
    · cases hnone
    obtain ⟨n, rfl, hn⟩ := Decoder.int64_eq_ok hread
    obtain rfl := Decoder.text_eq_ok_iff.1 hread'
    exact ⟨⟨n, .member he, hn⟩, .member he'⟩
  · obtain ⟨d, d', code, text, rfl, hd, hd', rfl⟩ := Items.run_both hds
    obtain ⟨n, rfl, hn⟩ := Decoder.int64_eq_ok hd
    obtain rfl := Decoder.text_eq_ok_iff.1 hd'
    exact ⟨⟨n, .item rfl, hn⟩, .item rfl⟩

end RpcFault

/-! ## Responses -/

namespace RpcBody

variable {levels : Nat} {s s' : Fields} {key : String} {d : Doc} {r : RpcBody}

/-- the field that a member is read as -/
theorem Fields.field_eq_ok (h : Fields.field levels s key d = .ok s') :
    (key = "result" ∧ ∃ slot, s.result.read key (Decoder.nullable Decoder.text) levels d = .ok slot ∧
        s' = { s with result := slot }) ∨
      (key = "error" ∧ ∃ slot, s.fault.read key (Decoder.nullable RpcFault.decoder) levels d = .ok slot ∧
        s' = { s with fault := slot }) ∨
      key ≠ "result" ∧ key ≠ "error" ∧ d.wellFormed = true ∧ s' = s := by
  rw [Fields.field] at h
  split_ifs at h with hresult hfault
  · obtain ⟨slot, hslot, rfl⟩ := bind_pure_eq_ok_iff.1 h
    exact Or.inl ⟨hresult, slot, hslot, rfl⟩
  · obtain ⟨slot, hslot, rfl⟩ := bind_pure_eq_ok_iff.1 h
    exact Or.inr (Or.inl ⟨hfault, slot, hslot, rfl⟩)
  · obtain ⟨hform, rfl⟩ := skip_eq_ok_iff.1 h
    exact Or.inr (Or.inr ⟨hresult, hfault, hform, rfl⟩)

theorem Fields.reads_result (levels : Nat) :
    ReadsSlot (Fields.field levels) "result" (Decoder.nullable Decoder.text levels) Fields.result := by
  intro s s' key d h
  rcases field_eq_ok h with ⟨rfl, slot, hslot, rfl⟩ | ⟨rfl, slot, hslot, rfl⟩ | ⟨hresult, -, -, rfl⟩
  · simpa using Slot.read_eq_ok_iff.1 hslot
  · simp
  · simp [hresult]

theorem Fields.reads_fault (levels : Nat) :
    ReadsSlot (Fields.field levels) "error" (Decoder.nullable RpcFault.decoder levels) Fields.fault := by
  intro s s' key d h
  rcases field_eq_ok h with ⟨rfl, slot, hslot, rfl⟩ | ⟨rfl, slot, hslot, rfl⟩ | ⟨-, hfault, -, rfl⟩
  · simp
  · simpa using Slot.read_eq_ok_iff.1 hslot
  · simp [hfault]

theorem decoder_formed : decoder.Formed := by
  intro levels d r h
  obtain ⟨inner, rfl, ⟨ms, rfl, hms⟩ | ⟨ds, rfl, hds⟩⟩ := Decoder.record_eq_ok_iff.1 h
  · obtain ⟨s, hs, -⟩ := bind_eq_ok_iff.1 hms
    refine readMembers_formed (fun s s' key d h => ?_) hs
    rcases Fields.field_eq_ok h with ⟨-, _, hslot, -⟩ | ⟨-, _, hslot, -⟩ | ⟨-, -, hform, -⟩
    · exact Decoder.text_formed.nullable.slot hslot
    · exact RpcFault.decoder_formed.nullable.slot hslot
    · exact hform
  · exact Items.both_formed Decoder.text_formed.nullable RpcFault.decoder_formed.nullable hds

/-- the result and the error of a response are what stands for them -/
theorem gives_of_decoder (h : decoder levels d = .ok r) :
    ∃ inner, d.Gives "result" 0 (Decoder.text inner) r.result ∧ d.Gives "error" 1 (RpcFault.decoder inner) r.fault := by
  obtain ⟨inner, rfl, ⟨ms, rfl, hms⟩ | ⟨ds, rfl, hds⟩⟩ := Decoder.record_eq_ok_iff.1 h
  · obtain ⟨s, hs, rfl⟩ := bind_pure_eq_ok_iff.1 hms
    exact ⟨inner, (Fields.reads_result inner).gives 0 rfl hs, (Fields.reads_fault inner).gives 1 rfl hs⟩
  · obtain ⟨d, d', result, fault, rfl, hresult, hfault, rfl⟩ := Items.run_both hds
    exact ⟨inner, Doc.gives_item rfl hresult, Doc.gives_item rfl hfault⟩

end RpcBody

/-! ## Replies -/

namespace HttpReply

variable {reply : HttpReply} {d : Doc}

/-- the reply is a response that can be read, and its body is this document -/
def Reads (reply : HttpReply) (d : Doc) : Prop :=
  ∃ status body r, reply = .response status body ∧ refuses status = false ∧ hasBody status = true ∧
    d.WrittenAs body ∧ RpcBody.decoder maxDepth d = .ok r

/-- what the document of a response to a call of `method` gives: its error, whatever the result is, or else its
result, or else nothing of use -/
structure Gives (d : Doc) (method : String) (given : Except ServiceError String) : Prop where
  fault : ∀ e, d.Holds "error" 1 e → e ≠ .null → ∃ (n : Whole) (code : Int64) (text : String),
    e.Holds "code" 0 (.number (.whole n)) ∧ n.val = code.toInt ∧ e.Holds "message" 1 (.text text) ∧
      given = .error (.rpc code text)
  result : (∀ e, d.Holds "error" 1 e → e = .null) → ∀ e, d.Holds "result" 0 e → e ≠ .null →
    ∃ text, e = .text text ∧ given = .ok text
  neither : (∀ e, d.Holds "error" 1 e → e = .null) → (∀ e, d.Holds "result" 0 e → e = .null) →
    given = .error (.invalidResponse (.noResult method))

theorem gives_of_reads (h : reply.Reads d) (method : String) : Gives d method (reply.outcome method) := by
  obtain ⟨status, body, r, rfl, hstatus, hbody, hd, hr⟩ := h
  have houtcome : (response status body).outcome method = r.outcome method := by
    simp [outcome, hstatus, hbody, decode_of_writtenAs _ hd, hr]
  obtain ⟨inner, hresult, hfault⟩ := RpcBody.gives_of_decoder hr
  rw [houtcome, RpcBody.outcome]
  refine ⟨fun e he hne => ?_, fun hnull e he hne => ?_, fun hnull hnone => ?_⟩
  · obtain ⟨f, hf, hsome⟩ := hfault.read e he hne
    obtain ⟨⟨n, hcode, hn⟩, htext⟩ := RpcFault.holds_of_decoder hf
    exact ⟨n, f.code, f.text, hcode, hn, htext, by rw [hsome]⟩
  · obtain ⟨text, htext, hsome⟩ := hresult.read e he hne
    exact ⟨text, Decoder.text_eq_ok_iff.1 htext, by rw [hfault.absent hnull, hsome]⟩
  · rw [hfault.absent hnull, hresult.absent hnone]

/-- every other reply is a failure of the exchange -/
theorem outcome_of_not_reads (h : ∀ d, ¬ reply.Reads d) (method : String) : reply.outcome method = .error .http := by
  cases reply with
  | unreachable | dropped => rfl
  | response status body =>
    rw [outcome]
    split_ifs with hstatus hbody
    · rfl
    · cases hr : decode RpcBody.decoder body with
      | error e => rfl
      | ok r =>
        obtain ⟨d, hd, hread⟩ := decode_formed RpcBody.decoder_formed hr
        exact absurd ⟨status, body, r, rfl, Bool.eq_false_iff.2 hstatus, hbody, hd, hread⟩ (h d)
    · rfl

/-- there is a result exactly if the reply can be read, has no error and has a text as its result -/
theorem outcome_eq_ok_iff {method text : String} : reply.outcome method = .ok text ↔
    ∃ d, reply.Reads d ∧ (∀ e, d.Holds "error" 1 e → e = .null) ∧ d.Holds "result" 0 (.text text) := by
  constructor
  · intro hok
    by_cases hreads : ∃ d, reply.Reads d
    · obtain ⟨d, hd⟩ := hreads
      have hgives := gives_of_reads hd method
      have hnull : ∀ e, d.Holds "error" 1 e → e = .null := by
        intro e he
        by_contra hne
        obtain ⟨_, _, _, -, -, -, herror⟩ := hgives.fault e he hne
        cases hok.symm.trans herror
      refine ⟨d, hd, hnull, ?_⟩
      by_contra hnone
      have habsent : ∀ e, d.Holds "result" 0 e → e = .null := by
        intro e he
        by_contra hne
        obtain ⟨text', rfl, htext⟩ := hgives.result hnull e he hne
        obtain rfl := Except.ok.inj (hok.symm.trans htext)
        exact hnone he
      cases hok.symm.trans (hgives.neither hnull habsent)
    · cases hok.symm.trans (outcome_of_not_reads (not_exists.1 hreads) method)
  · rintro ⟨d, hd, hnull, hresult⟩
    obtain ⟨text', heq, htext⟩ := (gives_of_reads hd method).result hnull _ hresult nofun
    rw [htext, Doc.text.inj heq]

end HttpReply

end ReplicatedOrders
