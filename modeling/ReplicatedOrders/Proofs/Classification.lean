/-
Classification: what every update payload comes to.

The payload is a text of the JSON grammar within the limits of the reader, or it is malformed. Of an object the fields
are looked at in a fixed order, and the first that is wrong is reported; a deletion is decided before the name is looked
at. Every field is read from its textual form, in which a number or a boolean is as good as a string.
- `Update.leaf_of_isContainer`, `Update.leaf_of_not_isContainer`: what is read of one field.
- `Update.any_marksDeletion_iff`: the values of `deleted` that mark a deletion.
- `Update.Reading.ofMembers`, `Update.exists_reading`: an object comes to exactly one of seven things.
- `Update.action_decode_eq_iff`: so does every text, counting the texts that are malformed or no object.
-/
import ReplicatedOrders.Proofs.Integers
import ReplicatedOrders.Proofs.Json.Acceptance

namespace ReplicatedOrders

open Json

namespace Update

/-! ## One field -/

/-- an array or an object -/
def IsContainer (f : Option Value) : Prop := (∃ vs, f = some (.array vs)) ∨ ∃ ms, f = some (.object ms)

/-- the textual form of a field that is there and neither null nor a container -/
def leafText? (f : Option Value) : Option String := (f.map Value.textual).bind Value.text?

/-- a value of `deleted` that marks a deletion -/
def Deletes (f : Option Value) : Prop := f = some (.bool true) ∨ ∃ s, f = some (.text s) ∧ Text.lower s = "true"

/-- the hash is the textual form of its field, and not empty -/
def HasHash (f : Option Value) (hash : String) : Prop := leafText? f = some hash ∧ hash ≠ ""

theorem leaf_of_isContainer {ms : Members} {f : UpdateField} (h : IsContainer (ms.get? f.name)) :
    leaf ms f = .error (.invalidField f) := by
  rw [leaf]
  rcases h with ⟨vs, h⟩ | ⟨ns, h⟩ <;> rw [h] <;> rfl

theorem leaf_of_not_isContainer {ms : Members} {f : UpdateField} (h : ¬ IsContainer (ms.get? f.name)) :
    leaf ms f = .ok (leafText? (ms.get? f.name)) := by
  rw [leaf]
  cases hf : ms.get? f.name with
  | none => rfl
  | some v =>
    rw [hf] at h
    cases v with
    | array vs => exact absurd (Or.inl ⟨vs, rfl⟩) h
    | object ns => exact absurd (Or.inr ⟨ns, rfl⟩) h
    | null | bool | number | text => rfl

/-- a field without a textual form is not there, null or a container -/
theorem leafText?_eq_none {f : Option Value} (h : leafText? f = none) :
    f = none ∨ f = some .null ∨ IsContainer f := by
  cases f with
  | none => exact Or.inl rfl
  | some v =>
    cases v with
    | null => exact Or.inr (Or.inl rfl)
    | array vs => exact Or.inr (Or.inr (Or.inl ⟨vs, rfl⟩))
    | object ms => exact Or.inr (Or.inr (Or.inr ⟨ms, rfl⟩))
    | bool | number | text => cases h

/-- a numeral does not begin like a word -/
theorem exists_head_of_isNumeral {s : String} {negative : Bool} {n : Nat} (h : IsNumeral s negative n) :
    ∃ c cs, s.toList = c :: cs ∧ c.toLower ≠ 't' := by
  obtain ⟨ds, hds, -, hs⟩ := h
  cases negative with
  | true => exact ⟨'-', _, hs, by decide⟩
  | false =>
    obtain ⟨d, ds, rfl⟩ := List.exists_cons_of_ne_nil hds.ne
    have hdigit : ∀ m : Fin 10, (Nat.digitChar m.val).toLower ≠ 't' := by decide
    exact ⟨Nat.digitChar d, _, hs, hdigit ⟨d, hds.lt d List.mem_cons_self⟩⟩

theorem exists_head_digits (n : Number) : ∃ c cs, n.digits.toList = c :: cs ∧ c.toLower ≠ 't' := by
  cases n with
  | whole m => exact exists_head_of_isNumeral (Number.isNumeral_whole m)
  | real x => exact exists_head_of_isNumeral (Number.isNumeral_real x)

/-- only the empty string has an empty textual form -/
theorem leafText?_eq_empty {f : Option Value} (h : leafText? f = some "") : f = some (.text "") := by
  cases f with
  | none => cases h
  | some v =>
    have hv : v.textual.text? = some "" := h
    cases v with
    | text s => rw [Option.some.inj hv]
    | bool b => cases b <;> simp [Value.textual, Value.text?] at hv
    | number n =>
      obtain ⟨c, cs, hcs, -⟩ := exists_head_digits n
      rw [Option.some.inj hv] at hcs
      cases hcs
    | null | array | object => cases hv

theorem marksDeletion_iff (s : String) : marksDeletion s = true ↔ Text.lower s = "true" := beq_iff_eq

/-- the values of `deleted` that mark a deletion -/
theorem any_marksDeletion_iff (f : Option Value) : (leafText? f).any marksDeletion = true ↔ Deletes f := by
  cases f with
  | none => simp [leafText?, Deletes]
  | some v =>
    cases v with
    | null => simp [leafText?, Deletes, Value.textual, Value.text?]
    | array vs => simp [leafText?, Deletes, Value.textual, Value.text?]
    | object ms => simp [leafText?, Deletes, Value.textual, Value.text?]
    | text s => simp [leafText?, Deletes, Value.textual, Value.text?, marksDeletion_iff]
    | bool b =>
      have hfalse : marksDeletion "false" = false := by decide +kernel
      have htrue : marksDeletion "true" = true := by decide +kernel
      cases b <;> simp [leafText?, Deletes, Value.textual, Value.text?, hfalse, htrue]
    | number n =>
      obtain ⟨c, cs, hcs, hc⟩ := exists_head_digits n
      have hno : ¬ marksDeletion n.digits = true := by
        rw [marksDeletion_iff]
        intro hlower
        have hlist := congrArg String.toList hlower
        rw [Text.lower, String.toList_map, hcs] at hlist
        exact hc (List.cons.inj hlist).1
      simpa [leafText?, Deletes, Value.textual, Value.text?] using hno

/-! ## An object -/

/-- what an object comes to whose fields have the given values -/
inductive Reading (field : String → Option Value) : Except UpdateError Action → Prop where
  | missingHash (h : field Order.hashField = none ∨ field Order.hashField = some .null ∨
      field Order.hashField = some (.text "")) : Reading field (.error .missingOrderHash)
  | invalidHash (h : IsContainer (field Order.hashField)) : Reading field (.error (.invalidField .orderHash))
  | invalidDeleted {hash : String} (hhash : HasHash (field Order.hashField) hash)
    (h : IsContainer (field UpdateField.deleted.name)) : Reading field (.error (.invalidField .deleted))
  | delete {hash : String} (hhash : HasHash (field Order.hashField) hash)
    (h : Deletes (field UpdateField.deleted.name)) : Reading field (.ok (.delete hash))
  | invalidName {hash : String} (hhash : HasHash (field Order.hashField) hash)
    (hkept : ¬ IsContainer (field UpdateField.deleted.name) ∧ ¬ Deletes (field UpdateField.deleted.name))
    (h : IsContainer (field Order.bookField)) : Reading field (.error (.invalidField .orderBookName))
  | upsert {hash : String} {v : Value} (hhash : HasHash (field Order.hashField) hash)
    (hkept : ¬ IsContainer (field UpdateField.deleted.name) ∧ ¬ Deletes (field UpdateField.deleted.name))
    (hname : ¬ IsContainer (field Order.bookField)) (hdata : field Order.offChainField = some v) (hv : v ≠ .null) :
    Reading field (.ok (.upsert hash ((leafText? (field Order.bookField)).filter (· ≠ "")) v.textual))
  | skip {hash : String} (hhash : HasHash (field Order.hashField) hash)
    (hkept : ¬ IsContainer (field UpdateField.deleted.name) ∧ ¬ Deletes (field UpdateField.deleted.name))
    (hname : ¬ IsContainer (field Order.bookField))
    (hdata : field Order.offChainField = none ∨ field Order.offChainField = some .null) :
    Reading field (.ok (.skip hash))

theorem not_isContainer_of_hasHash {f : Option Value} {hash : String} (h : HasHash f hash) : ¬ IsContainer f := by
  rintro (⟨vs, rfl⟩ | ⟨ms, rfl⟩) <;> cases h.1

theorem not_isContainer_of_deletes {f : Option Value} (h : Deletes f) : ¬ IsContainer f := by
  rintro (⟨vs, rfl⟩ | ⟨ms, rfl⟩) <;> simp [Deletes] at h

/-- once the hash is read, `deleted` decides what is looked at -/
theorem ofMembers_of_hasHash {ms : Members} {hash : String} (h : HasHash (ms.get? Order.hashField) hash) :
    ofMembers ms = (leaf ms .deleted).bind fun deleted =>
      if deleted.any marksDeletion then .ok ⟨hash, none, none, true⟩
      else (leaf ms .orderBookName).map fun name =>
        ⟨hash, name.filter (· ≠ ""),
          ((ms.get? Order.offChainField).map Value.textual).filter fun v => !v.isNull, false⟩ := by
  have hleaf : leaf ms .orderHash = .ok (some hash) := by
    rw [leaf_of_not_isContainer (not_isContainer_of_hasHash h)]
    exact congrArg Except.ok h.1
  have hne := h.2
  simp only [ofMembers, hleaf, bind, Except.bind]
  cases leaf ms .deleted with
  | error e => rfl
  | ok deleted => cases leaf ms .orderBookName <;> rfl

/-- what an update that is no deletion comes to -/
theorem ofMembers_of_kept {ms : Members} {hash : String} (hhash : HasHash (ms.get? Order.hashField) hash)
    (hleaf : ¬ IsContainer (ms.get? UpdateField.deleted.name)) (hkept : ¬ Deletes (ms.get? UpdateField.deleted.name))
    (hname : ¬ IsContainer (ms.get? Order.bookField)) :
    ofMembers ms = .ok ⟨hash, (leafText? (ms.get? Order.bookField)).filter (· ≠ ""),
      ((ms.get? Order.offChainField).map Value.textual).filter fun v => !v.isNull, false⟩ := by
  rw [ofMembers_of_hasHash hhash, leaf_of_not_isContainer hleaf, Except.bind,
    if_neg fun h => hkept ((any_marksDeletion_iff _).1 h), leaf_of_not_isContainer hname]
  rfl

theorem Reading.ofMembers {ms : Members} {r : Except UpdateError Action} (h : Reading ms.get? r) :
    (ofMembers ms).map action = r := by
  cases h with
  | missingHash h =>
    have hleaf : leaf ms .orderHash = .ok none ∨ leaf ms .orderHash = .ok (some "") := by
      rcases h with h | h | h
      · exact Or.inl (by rw [leaf, UpdateField.name, h])
      · exact Or.inl (by rw [leaf, UpdateField.name, h])
      · exact Or.inr (by rw [leaf, UpdateField.name, h]; rfl)
    rcases hleaf with hleaf | hleaf <;> rw [Update.ofMembers, hleaf] <;> rfl
  | invalidHash h =>
    rw [Update.ofMembers, leaf_of_isContainer h]
    rfl
  | invalidDeleted hhash h =>
    rw [ofMembers_of_hasHash hhash, leaf_of_isContainer h]
    rfl
  | delete hhash h =>
    rw [ofMembers_of_hasHash hhash, leaf_of_not_isContainer (not_isContainer_of_deletes h), Except.bind,
      if_pos ((any_marksDeletion_iff _).2 h)]
    rfl
  | invalidName hhash hkept h =>
    rw [ofMembers_of_hasHash hhash, leaf_of_not_isContainer hkept.1, Except.bind,
      if_neg fun h => hkept.2 ((any_marksDeletion_iff _).1 h), leaf_of_isContainer h]
    rfl
  | @upsert hash v hhash hkept hname hdata hv =>
    have hnull : v.textual.isNull = false := by
      cases v <;> first | rfl | exact absurd rfl hv
    rw [ofMembers_of_kept hhash hkept.1 hkept.2 hname, hdata]
    simp [Except.map, action, Option.filter_some, hnull]
  | skip hhash hkept hname hdata =>
    rw [ofMembers_of_kept hhash hkept.1 hkept.2 hname]
    rcases hdata with h | h <;> rw [h] <;> rfl

/-- an object comes to something -/
theorem exists_reading (field : String → Option Value) : ∃ r, Reading field r := by
  cases hhash : leafText? (field Order.hashField) with
  | none =>
    rcases leafText?_eq_none hhash with h | h | h
    · exact ⟨_, .missingHash (Or.inl h)⟩
    · exact ⟨_, .missingHash (Or.inr (Or.inl h))⟩
    · exact ⟨_, .invalidHash h⟩
  | some hash =>
    by_cases hempty : hash = ""
    · subst hempty
      exact ⟨_, .missingHash (Or.inr (Or.inr (leafText?_eq_empty hhash)))⟩
    by_cases hdeleted : IsContainer (field UpdateField.deleted.name)
    · exact ⟨_, .invalidDeleted ⟨hhash, hempty⟩ hdeleted⟩
    by_cases hdeletes : Deletes (field UpdateField.deleted.name)
    · exact ⟨_, .delete ⟨hhash, hempty⟩ hdeletes⟩
    by_cases hname : IsContainer (field Order.bookField)
    · exact ⟨_, .invalidName ⟨hhash, hempty⟩ ⟨hdeleted, hdeletes⟩ hname⟩
    cases hdata : field Order.offChainField with
    | none => exact ⟨_, .skip ⟨hhash, hempty⟩ ⟨hdeleted, hdeletes⟩ hname (Or.inl hdata)⟩
    | some v =>
      by_cases hv : v = .null
      · exact ⟨_, .skip ⟨hhash, hempty⟩ ⟨hdeleted, hdeletes⟩ hname (Or.inr (hv ▸ hdata))⟩
      · exact ⟨_, .upsert ⟨hhash, hempty⟩ ⟨hdeleted, hdeletes⟩ hname hdata hv⟩

/-! ## A text -/

/-- what a payload comes to -/
inductive Classified (payload : String) : Except UpdateError Action → Prop where
  | malformed (h : ¬ ∃ d : Doc, d.WrittenAs payload ∧ d.WithinLimits) : Classified payload (.error (.json .malformed))
  | notAnObject {d : Doc} (h : d.WrittenAs payload) (hlimits : d.WithinLimits) (hd : ∀ ms, d ≠ .object ms) :
    Classified payload (.error .notAnObject)
  | object {ms : List (Option String × Doc)} {r : Except UpdateError Action} (h : (Doc.object ms).WrittenAs payload)
    (hlimits : (Doc.object ms).WithinLimits) (hr : Reading (Doc.field? (maxDepth - 1) ms) r) : Classified payload r

theorem decode_of_parse? {payload : String} {v : Value} (h : parse? payload = some v) :
    decode payload = v.members?.elim (.error .notAnObject) ofMembers := by
  rw [decode, decode_value, h]
  cases v <;> rfl

theorem decode_of_not_withinLimits {payload : String} (h : ¬ ∃ d : Doc, d.WrittenAs payload ∧ d.WithinLimits) :
    decode payload = .error (.json .malformed) := by
  rw [decode, decode_value, parse?_eq_none_iff.2 h]
  rfl

/-- the members of a payload that is an object -/
theorem exists_members {payload : String} {ms : List (Option String × Doc)} (h : (Doc.object ms).WrittenAs payload)
    (hlimits : (Doc.object ms).WithinLimits) :
    ∃ vs, parse? payload = some (.object vs) ∧ Members.get? vs = Doc.field? (maxDepth - 1) ms := by
  obtain ⟨v, hv⟩ := Option.isSome_iff_exists.1 (Doc.value?_isSome_iff.2 hlimits)
  obtain ⟨vs, hvs, rfl⟩ := Option.map_eq_some_iff.1 hv
  exact ⟨_, parse?_eq_some_iff.2 ⟨_, h, hv⟩, funext (Doc.get?_of_memberValues? hvs)⟩

theorem Classified.decode {payload : String} {r : Except UpdateError Action} (h : Classified payload r) :
    (decode payload).map action = r := by
  cases h with
  | malformed h =>
    rw [decode_of_not_withinLimits h]
    rfl
  | @notAnObject d h hlimits hd =>
    obtain ⟨v, hv⟩ := Option.isSome_iff_exists.1 (Doc.value?_isSome_iff.2 hlimits)
    rw [decode_of_parse? (parse?_eq_some_iff.2 ⟨d, h, hv⟩)]
    cases d with
    | object ms => exact absurd rfl (hd ms)
    | array ds =>
      obtain ⟨vs, -, rfl⟩ := Option.map_eq_some_iff.1 hv
      rfl
    | null | bool | number | text => cases hv; rfl
    | unreadable | cut => cases hv
  | object h hlimits hr =>
    obtain ⟨vs, hvs, hfields⟩ := exists_members h hlimits
    rw [decode_of_parse? hvs]
    rw [← hfields] at hr
    exact hr.ofMembers

theorem exists_classified (payload : String) : ∃ r, Classified payload r := by
  by_cases h : ∃ d : Doc, d.WrittenAs payload ∧ d.WithinLimits
  · obtain ⟨d, hd, hlimits⟩ := h
    by_cases hobject : ∃ ms, d = .object ms
    · obtain ⟨ms, rfl⟩ := hobject
      obtain ⟨r, hr⟩ := exists_reading (Doc.field? (maxDepth - 1) ms)
      exact ⟨r, .object hd hlimits hr⟩
    · exact ⟨_, .notAnObject hd hlimits fun ms heq => hobject ⟨ms, heq⟩⟩
  · exact ⟨_, .malformed h⟩

/-- **Every payload is classified, and reading it gives what it comes to.** -/
theorem action_decode_eq_iff (payload : String) (r : Except UpdateError Action) :
    (decode payload).map action = r ↔ Classified payload r := by
  constructor
  · rintro rfl
    obtain ⟨r, hr⟩ := exists_classified payload
    rwa [hr.decode]
  · exact Classified.decode

/-- a number that is beyond every finite number has the form of one, and the payload around it is malformed -/
theorem decode_beyond_finite :
    let payload := "\x7b\"orderHash\":\"a\",\"deleted\":true,\"x\":1e999\x7d"
    WellFormed payload ∧ decode payload = .error (.json .malformed) := by
  intro payload
  refine ⟨(wellFormed_iff payload).2 (by decide +kernel), ?_⟩
  have hnone : (parse? payload).isNone = true := by decide +kernel
  exact decode_of_not_withinLimits (parse?_eq_none_iff.1 (Option.isNone_iff_eq_none.1 hnone))

end Update

end ReplicatedOrders
