/-
Recognized fields: an update depends on four fields of its payload, and after a deletion on two of them.

Two payloads give the same update, or the same error, if the recognized fields of their normalized objects agree. So the
order of members does not matter as long as members of one key keep theirs, nor does any other member, and a payload may
be replaced by the compact text of its normalized object.
- `Update.leaf_eq_shown`, `Update.Agree.ofMembers`: what is read of a field is what the normalized object shows of it.
- `Doc.field?_congr`, `Doc.withinLimits_congr`: what a permutation of members keeps.
- `Update.decode_recognized`: all of it.
-/
import Mathlib
import ReplicatedOrders.Proofs.Classification
import ReplicatedOrders.Proofs.Wire

namespace ReplicatedOrders

open Json

namespace Update

/-! ## Agreement -/

/-- a field of the normalized object, with null as good as absent -/
def shown (ms : Members) (name : String) : Option Value :=
  ((ms.get? name).map Value.textual).filter fun v => !v.isNull

/-- the recognized fields agree, of a deletion only its hash and its mark -/
structure Agree (ms ms' : Members) : Prop where
  hash : shown ms Order.hashField = shown ms' Order.hashField
  deleted : shown ms UpdateField.deleted.name = shown ms' UpdateField.deleted.name
  name : ¬ Deletes (ms.get? UpdateField.deleted.name) → shown ms Order.bookField = shown ms' Order.bookField
  data : ¬ Deletes (ms.get? UpdateField.deleted.name) → shown ms Order.offChainField = shown ms' Order.offChainField

theorem leaf_eq_shown (ms : Members) (f : UpdateField) :
    leaf ms f =
      match shown ms f.name with
      | none => .ok none
      | some (.text s) => .ok (some s)
      | some _ => .error (.invalidField f) := by
  rw [leaf, shown]
  cases ms.get? f.name with
  | none => rfl
  | some v => cases v <;> rfl

theorem leaf_congr {ms ms' : Members} {f : UpdateField} (h : shown ms f.name = shown ms' f.name) :
    leaf ms f = leaf ms' f := by
  rw [leaf_eq_shown, leaf_eq_shown, h]

theorem Agree.ofMembers {ms ms' : Members} (h : Agree ms ms') : ofMembers ms = ofMembers ms' := by
  have hhash : leaf ms .orderHash = leaf ms' .orderHash := leaf_congr h.hash
  have hdeleted : leaf ms .deleted = leaf ms' .deleted := leaf_congr h.deleted
  by_cases hdeletes : Deletes (ms.get? UpdateField.deleted.name)
  · have hleaf := leaf_of_not_isContainer (not_isContainer_of_deletes hdeletes)
    rw [hdeleted] at hleaf
    have hmarks := (any_marksDeletion_iff _).2 hdeletes
    simp only [Update.ofMembers, hhash, hdeleted, hleaf, bind, Except.bind, hmarks, if_true]
  · have hname : leaf ms .orderBookName = leaf ms' .orderBookName := leaf_congr (h.name hdeletes)
    have hdata := h.data hdeletes
    unfold shown at hdata
    simp only [Update.ofMembers, hhash, hdeleted, hname, hdata]

end Update

/-! ## Members as they are written -/

namespace Json.Doc

variable {ms ms' : List (Option String × Doc)}

/-- the members with a key, in their order -/
def under (key : Option String) (ms : List (Option String × Doc)) : List (Option String × Doc) :=
  ms.filter fun m => m.1 = key

theorem lookup_under (key : Option String) (ms : List (Option String × Doc)) :
    (under key ms).lookup key = ms.lookup key := by
  induction ms with
  | nil => rfl
  | cons m ms ih =>
    obtain ⟨k, d⟩ := m
    rw [under] at ih ⊢
    by_cases hk : k = key
    · subst hk
      simp
    · rw [List.filter_cons_of_neg (by simpa using hk), ih, List.lookup_cons, beq_false_of_ne (Ne.symm hk)]

/-- members with distinct keys stand in any order -/
theorem under_eq_of_perm (hkeys : (ms.map fun m => m.1).Nodup) (h : ms.Perm ms') (key : Option String) :
    under key ms = under key ms' := by
  have hperm : (under key ms).Perm (under key ms') := h.filter _
  have hone : (under key ms).length ≤ 1 := by
    rw [under, ← List.countP_eq_length_filter]
    have hcount := List.nodup_iff_count_le_one.1 hkeys key
    rw [List.count, List.countP_map] at hcount
    refine le_trans (le_of_eq (List.countP_congr fun m _ => ?_)) hcount
    simp
  cases hunder : under key ms with
  | nil => rw [hunder] at hperm; exact (List.nil_perm.1 hperm).symm
  | cons m rest =>
    obtain rfl : rest = [] := by
      rw [hunder, List.length_cons] at hone
      exact List.length_eq_zero_iff.1 (by omega)
    rw [hunder] at hperm
    exact List.singleton_perm.1 hperm

/-- a field is read from the members with its name -/
theorem field?_congr {name : String} (h : under (some name) ms = under (some name) ms') (levels : Nat) :
    field? levels ms name = field? levels ms' name := by
  have hreverse : under (some name) ms.reverse = under (some name) ms'.reverse := by
    simp only [under, List.filter_reverse] at h ⊢
    rw [h]
  rw [field?, field?, ← lookup_under, hreverse, lookup_under]

/-- the limits look at the members in any order -/
theorem withinLimits_congr (h : ∀ key, under key ms = under key ms') :
    (object ms).WithinLimits ↔ (object ms').WithinLimits := by
  have hmem : ∀ m, m ∈ ms ↔ m ∈ ms' := by
    intro m
    have hunder : ∀ l : List (Option String × Doc), m ∈ under m.1 l ↔ m ∈ l := by simp [under]
    rw [← hunder ms, h m.1, hunder ms']
  have hdepth : ∀ l : List (Option String × Doc), (object l).depth ≤ maxDepth ↔ ∀ m ∈ l, m.2.depth ≤ maxDepth - 1 := by
    intro l
    rw [depth, ← depthMembers_le_iff]
    exact Nat.add_le_add_iff_right
  simp only [WithinLimits, complete_object_iff, hdepth, hmem]

end Json.Doc

namespace Update

/-- the fields that are looked at -/
def recognized : List String := [Order.hashField, UpdateField.deleted.name, Order.bookField, Order.offChainField]

theorem agree_of_recognized {ms ms' : Members} (h : ∀ name ∈ recognized, ms.get? name = ms'.get? name) :
    Agree ms ms' := by
  have hshown : ∀ name ∈ recognized, shown ms name = shown ms' name := fun name hname => by
    rw [shown, shown, h name hname]
  exact ⟨hshown _ (by simp [recognized]), hshown _ (by simp [recognized]), fun _ => hshown _ (by simp [recognized]),
    fun _ => hshown _ (by simp [recognized])⟩

/-- two payloads within the limits whose recognized members are the same -/
theorem decode_congr_of_under {payload payload' : String} {ms ms' : List (Option String × Doc)}
    (h : (Doc.object ms).WrittenAs payload) (h' : (Doc.object ms').WrittenAs payload')
    (hlimits : (Doc.object ms).WithinLimits) (hlimits' : (Doc.object ms').WithinLimits)
    (hunder : ∀ name ∈ recognized, Doc.under (some name) ms = Doc.under (some name) ms') :
    decode payload = decode payload' := by
  obtain ⟨vs, hvs, hfields⟩ := exists_members h hlimits
  obtain ⟨vs', hvs', hfields'⟩ := exists_members h' hlimits'
  rw [decode_of_parse? hvs, decode_of_parse? hvs']
  refine (agree_of_recognized fun name hname => ?_).ofMembers
  rw [hfields, hfields']
  exact Doc.field?_congr (hunder name hname) _

/-- members may be permuted as long as those of one key keep their order -/
theorem decode_congr_of_permuted {payload payload' : String} {ms ms' : List (Option String × Doc)}
    (h : (Doc.object ms).WrittenAs payload) (h' : (Doc.object ms').WrittenAs payload')
    (hunder : ∀ key, Doc.under key ms = Doc.under key ms') : decode payload = decode payload' := by
  have hlimits := Doc.withinLimits_congr hunder
  by_cases hw : (Doc.object ms).WithinLimits
  · exact decode_congr_of_under h h' hw (hlimits.1 hw) fun name _ => hunder (some name)
  · have hno : ∀ {t : String} {l : List (Option String × Doc)}, (Doc.object l).WrittenAs t →
        ¬ (Doc.object l).WithinLimits → decode t = .error (.json .malformed) := by
      intro t l hl hnot
      refine decode_of_not_withinLimits ?_
      rintro ⟨d, hd, hin⟩
      exact hnot (hd.unique hl ▸ hin)
    rw [hno h hw, hno h' fun hw' => hw (hlimits.2 hw')]

/-- the compact text of a normalized value is read back as that value -/
theorem parse?_compact_textual {payload : String} {v : Value} (h : parse? payload = some v) :
    parse? v.textual.compact = some v.textual := by
  have hdecode : Json.decode Decoder.value payload = .ok v := by
    rw [decode_value, h]
    rfl
  obtain ⟨hcanonical, hdepth⟩ := Value.canonical_of_decode hdecode
  have hback := Decoder.decode_compact_value ⟨Value.canonical_textual hcanonical, Value.noReal_textual hcanonical⟩
  rw [Value.depth_textual, if_pos hdepth] at hback
  rw [parse?, hback]

/-- a payload may be replaced by the compact text of its normal form -/
theorem decode_compact_textual {payload : String} {v : Value} (h : parse? payload = some v) :
    decode v.textual.compact = decode payload :=
  decode_congr (parse?_compact_textual h) h v.textual_textual

/-- **An update depends on the recognized fields only.** Two payloads whose objects agree on them give the same update
or the same error. So members may be permuted as long as those of one key keep their order, other members may be added,
removed and changed within the limits of the reader, and a payload may be replaced by the compact text of its normalized
object. -/
theorem decode_recognized (payload payload' : String) :
    (∀ ms ms', parse? payload = some (.object ms) → parse? payload' = some (.object ms') → Agree ms ms' →
      decode payload = decode payload') ∧
    (∀ ms ms' : List (Option String × Doc), (Doc.object ms).WrittenAs payload → (Doc.object ms').WrittenAs payload' →
      (∀ key, Doc.under key ms = Doc.under key ms') → decode payload = decode payload') ∧
    (∀ ms ms' : List (Option String × Doc), (Doc.object ms).WrittenAs payload → (Doc.object ms').WrittenAs payload' →
      (Doc.object ms).WithinLimits → (Doc.object ms').WithinLimits →
      (∀ name ∈ recognized, Doc.under (some name) ms = Doc.under (some name) ms') →
      decode payload = decode payload') ∧
    (∀ ms, parse? payload = some (.object ms) →
      decode (Value.object (Value.textualMembers ms)).compact = decode payload) := by
  refine ⟨fun ms ms' h h' hagree => ?_, fun ms ms' => decode_congr_of_permuted, fun ms ms' => decode_congr_of_under,
    fun ms h => ?_⟩
  · rw [decode_of_parse? h, decode_of_parse? h']
    exact hagree.ofMembers
  · rw [← Value.textual]
    exact decode_compact_textual h

/-- one upsert from a payload, from the payload with other types, in another order and with another member, and from its
normal form -/
theorem decode_recognized_upsert :
    let payload := "\x7b\"orderHash\":\"a\",\"orderBookName\":true,\"offChainData\":[1]\x7d"
    let typed := "\x7b\"deleted\":null,\"orderHash\":\"a\",\"orderBookName\":\"true\",\"offChainData\":[\"1\"]\x7d"
    let permuted := "\x7b\"offChainData\":[1],\"orderBookName\":true,\"orderHash\":\"a\"\x7d"
    let extended := "\x7b\"onChainData\":0,\"orderHash\":\"a\",\"orderBookName\":true,\"offChainData\":[1]\x7d"
    (decode payload).map action = .ok (.upsert "a" (some "true") (.array [.text "1"])) ∧
      decode payload = decode typed ∧ decode payload = decode permuted ∧ decode payload = decode extended ∧
      decode (Value.object [("offChainData", .array [.text "1"]), ("orderBookName", .text "true"),
        ("orderHash", .text "a")]).compact = decode payload := by
  intro payload typed permuted extended
  have hparsed : parse? payload = some (.object [("offChainData", .array [.number (.whole ⟨1, by decide, by decide⟩)]),
      ("orderBookName", .bool true), ("orderHash", .text "a")]) := by unfold payload; cbv
  have htyped : parse? typed = some (.object [("deleted", .null), ("offChainData", .array [.text "1"]),
      ("orderBookName", .text "true"), ("orderHash", .text "a")]) := by unfold typed; cbv
  have hpayload : (Doc.object [(some "orderHash", .text "a"), (some "orderBookName", .bool true),
      (some "offChainData", .array [.number (.whole ⟨1, by decide, by decide⟩)])]).WrittenAs payload := by
    unfold payload
    exact Doc.writtenAs_iff.2 ⟨by cbv, by cbv⟩
  have hpermuted : (Doc.object [(some "offChainData", .array [.number (.whole ⟨1, by decide, by decide⟩)]),
      (some "orderBookName", .bool true), (some "orderHash", .text "a")]).WrittenAs permuted := by
    unfold permuted
    exact Doc.writtenAs_iff.2 ⟨by cbv, by cbv⟩
  have hextended : (Doc.object [(some "onChainData", .number (.whole ⟨0, by decide, by decide⟩)),
      (some "orderHash", .text "a"), (some "orderBookName", .bool true),
      (some "offChainData", .array [.number (.whole ⟨1, by decide, by decide⟩)])]).WrittenAs extended := by
    unfold extended
    exact Doc.writtenAs_iff.2 ⟨by cbv, by cbv⟩
  refine ⟨by unfold payload; cbv, ?_, ?_, ?_, ?_⟩
  · refine (decode_recognized payload typed).1 _ _ hparsed htyped ⟨rfl, rfl, fun _ => rfl, fun _ => rfl⟩
  · exact (decode_recognized payload permuted).2.1 _ _ hpayload hpermuted
      (Doc.under_eq_of_perm (by decide) (List.reverse_perm _).symm)
  · refine (decode_recognized payload extended).2.2.1 _ _ hpayload hextended ?_ ?_ ?_
    · exact Doc.value?_isSome_iff.1 (by cbv)
    · exact Doc.value?_isSome_iff.1 (by cbv)
    · intro name hname
      have hother : ¬ some "onChainData" = some name := by
        rintro ⟨⟩
        revert hname
        decide
      exact (List.filter_cons_of_neg (by simpa using hother)).symm
  · have hmembers : Value.textualMembers [("offChainData", .array [.number (.whole ⟨1, by decide, by decide⟩)]),
        ("orderBookName", .bool true), ("orderHash", .text "a")] =
        [("offChainData", .array [.text "1"]), ("orderBookName", .text "true"), ("orderHash", .text "a")] := by cbv
    have hnormal := (decode_recognized payload payload).2.2.2 _ hparsed
    rwa [hmembers] at hnormal

end Update

end ReplicatedOrders
