/-
Deltas: what becomes of the payloads that attempts write back to the update stream.

A delta is an object of a hash and on-chain data. Whatever the on-chain data holds, it stays below its own key, and the
keys that an update looks for stand at the top: so a delta is an update without off-chain data, or no update at all
where its hash is empty, its data nests too deep or a number of it has no value.
- `Delta.action?_text`: what a delta is as an update.
- `Replica.process_delta`: what a replica does with it.
-/
import ReplicatedOrders.Proofs.Attempt
import ReplicatedOrders.Proofs.Payload

namespace ReplicatedOrders

open Json

theorem OnChainData.complete_toDoc (d : OnChainData) : d.toDoc.Complete := by
  refine .record fun f hf => ?_
  simp only [List.mem_cons, List.not_mem_nil, or_false] at hf
  rcases hf with rfl | rfl | rfl
  · exact Value.complete_ofValue _
  · exact .text _
  · exact .text _

namespace Delta

/-- the members of a delta whose data is read as some value -/
def members (hash : String) (v : Value) : Members := [(Order.onChainField, v), (Order.hashField, .text hash)]

/-- a delta is read as the object of its two members, or not at all -/
theorem decode_text (d : Delta) :
    Json.decode Decoder.value d.text = .error .malformed ∨
      ∃ v, Json.decode Decoder.value d.text = .ok (.object (members d.hash v)) := by
  have hcomplete : d.toDoc.Complete := by
    refine .record fun f hf => ?_
    simp only [List.mem_cons, List.not_mem_nil, or_false] at hf
    rcases hf with rfl | rfl
    · exact .text _
    · exact d.data.complete_toDoc
  have hreread : d.toDoc.reread =
      .record [(Order.hashField, .text d.hash), (Order.onChainField, d.data.toDoc.reread)] :=
    Doc.reread_record _
  have hvalue : d.toDoc.reread.value? maxDepth =
      (d.data.toDoc.reread.value? 126).map fun v => .object (members d.hash v) := by
    have hlist : ∀ v, Members.ofList [(Order.hashField, .text d.hash), (Order.onChainField, v)] =
        members d.hash v := by
      intro v
      have hrising : Order.onChainField < Order.hashField := by decide
      simp [Members.ofList, Members.put, members, hrising]
    rw [hreread, Doc.record, maxDepth, Doc.value?]
    simp only [List.map_cons, List.map_nil, Doc.memberValues?, Doc.value?, Option.bind_eq_bind, Option.bind_some]
    cases d.data.toDoc.reread.value? 126 with
    | none => rfl
    | some v => exact congrArg (fun ms => some (Value.object ms)) (hlist v)
  rw [text, decode_compact_reread _ hcomplete, Decoder.value, hvalue]
  cases d.data.toDoc.reread.value? 126 with
  | none => exact Or.inl rfl
  | some v => exact Or.inr ⟨v, rfl⟩

/-- the members of a delta are an update without off-chain data, if the hash is not empty -/
theorem ofMembers_members (hash : String) (v : Value) :
    Update.ofMembers (members hash v) =
      if hash = "" then .error .missingOrderHash else .ok ⟨hash, none, none, false⟩ := by
  have hhash : Update.leaf (members hash v) .orderHash = .ok (some hash) := rfl
  by_cases h : hash = ""
  · subst h
    rfl
  · have hdeleted : Update.leaf (members hash v) .deleted = .ok none := rfl
    have hname : Update.leaf (members hash v) .orderBookName = .ok none := rfl
    simp only [Update.ofMembers, hhash, hdeleted, hname, bind, Except.bind, if_neg h]
    rfl

/-- **No delta is an upsert or a deletion.** -/
theorem action?_text (d : Delta) (id : EntryId) :
    LogEntry.action? ⟨id, some d.text⟩ = none ∨ LogEntry.action? ⟨id, some d.text⟩ = some (.skip d.hash) := by
  simp only [LogEntry.action?, Option.bind_some, Update.decode]
  rcases d.decode_text with h | ⟨v, h⟩
  · rw [h]
    exact Or.inl rfl
  · rw [h]
    simp only [ofMembers_members]
    by_cases hempty : d.hash = ""
    · rw [if_pos hempty]
      exact Or.inl rfl
    · rw [if_neg hempty]
      exact Or.inr rfl

end Delta

/-- **Deltas are inert.** A replica that is given a delta counts it, and moves its cursor if the delta is ahead of it;
that is all, whatever the delta holds, the replica stores and the sources answer. -/
theorem Replica.process_delta (g : Registry) (r : Replica) (id : EntryId) (hash : String) (data : OnChainData) :
    ∃ malformed stale,
      r.process g ⟨id, some (Delta.text ⟨hash, data⟩)⟩ =
        { r with
            store := { r.store with cursor := max r.store.cursor id }
            counters := { r.counters with received := r.counters.received + 1, malformed, stale } } := by
  have hinert := Delta.action?_text ⟨hash, data⟩ id
  have haccepted := r.accept_accepted ⟨id, some (Delta.text ⟨hash, data⟩)⟩
  unfold process
  generalize r.accept ⟨id, some (Delta.text ⟨hash, data⟩)⟩ = p at haccepted ⊢
  cases haccepted with
  | stale h => exact ⟨_, _, by rw [EntryId.max_eq_left h]⟩
  | malformed h | skipped h => exact ⟨_, _, by rw [EntryId.max_eq_right h]⟩
  | deleted h ha | upserted h ha =>
    rw [ha] at hinert
    rcases hinert with hinert | hinert <;> cases hinert

end ReplicatedOrders
