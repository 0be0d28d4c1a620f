/-
Entry ids: how their text, their order and their JSON form agree.

An id is written as its two numbers with a minus between them. It is read from more texts than that: either number may
have a plus and zeros in front, and without a second number the sequence number is zero. `EntryId.Names` says which
texts are read as which id. The stream cursor moves by the order of ids, which is that of one number.
- `parse?_eq_some_iff`: what is read is what the text names.
- `compact_toDoc`: an id as JSON text.
- `order_eq_compare`: the order as that of one number.
- `text_order_json`: all of it.
-/
import ReplicatedOrders.Proofs.Bounded
import ReplicatedOrders.Proofs.Operations

namespace ReplicatedOrders.EntryId

open Json

/-! ## Reading -/

/-- the texts that name an id: its time, or its time, the first minus and its sequence number -/
inductive Names : List Char → EntryId → Prop where
  | time {m : List Char} {millis : UInt64} (h : Numeral.IsBounded (2 ^ 64) m millis.toNat) : Names m ⟨millis, 0⟩
  | both {m s : List Char} {millis seq : UInt64} (hm : Numeral.IsBounded (2 ^ 64) m millis.toNat)
    (hs : Numeral.IsBounded (2 ^ 64) s seq.toNat) : Names (m ++ '-' :: s) ⟨millis, seq⟩

theorem parsePart_eq_some_iff {cs : List Char} {w : UInt64} :
    parsePart cs = some w ↔ Numeral.IsBounded (2 ^ 64) cs w.toNat := by
  have hread : ∀ n, Numeral.parseBounded UInt64.size (String.ofList cs) = .ok n ↔ Numeral.IsBounded (2 ^ 64) cs n := by
    intro n
    rw [Numeral.parseBounded_eq_ok_iff (by decide), String.toList_ofList]
    rfl
  rw [← hread, parsePart]
  cases hn : Numeral.parseBounded UInt64.size (String.ofList cs) with
  | error e => exact iff_of_false (fun h => by cases h) (fun h => by cases h)
  | ok n =>
    obtain ⟨_, _, -, -, -, -, -, hlt⟩ := (hread n).1 hn
    rw [Option.some.injEq, Except.ok.injEq]
    constructor
    · rintro rfl
      exact (UInt64.toNat_ofNat_of_lt' hlt).symm
    · rintro rfl
      exact UInt64.ofNat_toNat

/-- what is read is what the text names -/
theorem parse?_eq_some_iff {text : String} {id : EntryId} : parse? text = some id ↔ Names text.toList id := by
  unfold parse?
  generalize text.toList = cs
  by_cases hminus : '-' ∈ cs
  · obtain ⟨m, s, rfl, hm⟩ := List.eq_append_cons_of_mem hminus
    rw [Text.cutAt_append hm]
    simp only [bind, Option.bind_eq_some_iff, parsePart_eq_some_iff, pure, Option.some.injEq]
    constructor
    · rintro ⟨millis, hmillis, seq, hseq, rfl⟩
      exact .both hmillis hseq
    · intro h
      generalize hcs : m ++ '-' :: s = cs at h
      cases h with
      | time h => exact absurd (hcs ▸ List.mem_append_right m List.mem_cons_self) h.minus_not_mem
      | both hmillis hseq =>
        -- the first minus is the one that the id was written with
        have hcut := Text.cutAt_append hm (b := s)
        rw [hcs, Text.cutAt_append hmillis.minus_not_mem] at hcut
        obtain ⟨rfl, hs⟩ := Prod.mk.inj hcut
        obtain rfl := Option.some.inj hs
        exact ⟨_, hmillis, _, hseq, rfl⟩
  · rw [Text.cutAt_of_not_mem hminus]
    simp only [bind, Option.bind_eq_some_iff, parsePart_eq_some_iff, pure, Option.some.injEq]
    constructor
    · rintro ⟨millis, hmillis, rfl⟩
      exact .time hmillis
    · intro h
      cases h with
      | time h => exact ⟨_, h, rfl⟩
      | both hmillis hseq => exact absurd (List.mem_append_right _ List.mem_cons_self) hminus

theorem parse_eq_ok_iff {text : String} {id : EntryId} : parse text = .ok id ↔ Names text.toList id := by
  rw [← parse?_eq_some_iff, parse]
  cases parse? text <;> simp

theorem parse_eq_error_iff {text : String} {e : ServiceError} :
    parse text = .error e ↔ (∀ id, ¬ Names text.toList id) ∧ e = .invalidEntryId text := by
  simp only [← parse?_eq_some_iff, parse]
  cases parse? text <;> simp [eq_comm]

/-! ## JSON -/

/-- a written id is its text between quotes -/
theorem compact_toDoc (id : EntryId) : id.toDoc.compact = "\"" ++ id.text ++ "\"" := by
  refine Doc.compact_text fun c hc => ?_
  simp only [text, String.toList_append, List.mem_append] at hc
  rcases hc with (hc | hc) | hc
  · exact escapeChar_of_mem_toString hc
  · obtain rfl := List.mem_singleton.1 hc
    rfl
  · exact escapeChar_of_mem_toString hc

theorem decode_compact_toDoc (id : EntryId) : decode decoder id.toDoc.compact = .ok id := by
  have hplain : id.toDoc.Plain := .text _
  rw [decode_compact decoder hplain, decoder_toDoc]

/-! ## Order -/

/-- the order of two ids is that of their numbers -/
theorem order_eq_compare (a b : EntryId) : a.order b = compare a.rank b.rank := by
  unfold order
  split_ifs with hlt heq
  · exact (Nat.compare_eq_lt.2 ((lt_iff_rank a b).1 hlt)).symm
  · rw [heq]
    exact (Nat.compare_eq_eq.2 rfl).symm
  · have hne : a.rank ≠ b.rank := fun h => heq (rank_injective h)
    have hnlt : ¬ a.rank < b.rank := fun h => hlt ((lt_iff_rank a b).2 h)
    exact (Nat.compare_eq_gt.2 (by omega)).symm

/-- **Text, order and JSON of an id agree.** A written id is read back, from its text and from its JSON text. A text is
read as the id that it names, and every other text is refused with all of it in the error. Ids are ordered by time and
then by sequence number, which is the order of one number, and the cursor of a store moves to the later ids only. -/
theorem text_order_json :
    (∀ millis seq : UInt64,
      text ⟨millis, seq⟩ = toString millis.toNat ++ "-" ++ toString seq.toNat ∧
        parse (text ⟨millis, seq⟩) = .ok ⟨millis, seq⟩ ∧
        (toDoc ⟨millis, seq⟩).compact = "\"" ++ text ⟨millis, seq⟩ ++ "\"" ∧
        decode decoder (toDoc ⟨millis, seq⟩).compact = .ok ⟨millis, seq⟩) ∧
      (∀ s : String, (∀ id, parse s = .ok id ↔ Names s.toList id) ∧
        ∀ e, parse s = .error e ↔ (∀ id, ¬ Names s.toList id) ∧ e = .invalidEntryId s) ∧
      (∀ a b : EntryId,
        (a < b ↔ a.millis < b.millis ∨ a.millis = b.millis ∧ a.seq < b.seq) ∧
          a.order b = compare (a.millis.toNat * 2 ^ 64 + a.seq.toNat) (b.millis.toNat * 2 ^ 64 + b.seq.toNat) ∧
          (a < b ↔ a.millis.toNat * 2 ^ 64 + a.seq.toNat < b.millis.toNat * 2 ^ 64 + b.seq.toNat)) ∧
      ∀ (store : Store) (id : EntryId), ((store.advance id).2 = true ↔ store.cursor < id) ∧
        (store.advance id).1.cursor = if store.cursor < id then id else store.cursor := by
  refine ⟨fun millis seq => ?_, fun s => ⟨fun id => parse_eq_ok_iff, fun e => parse_eq_error_iff⟩, fun a b => ?_,
    fun store id => ⟨Store.snd_advance, Store.cursor_advance store id⟩⟩
  · exact ⟨rfl, parse_eq_ok_iff.2 (parse?_eq_some_iff.1 (parse?_text _)), compact_toDoc _, decode_compact_toDoc _⟩
  · exact ⟨Iff.rfl, order_eq_compare a b, lt_iff_rank a b⟩

end ReplicatedOrders.EntryId
