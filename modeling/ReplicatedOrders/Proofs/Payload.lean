/-
Payloads: what the payload of an entry says, and what becomes of it.

An update is read from the members of the payload. A hash is never empty, a name counts only if it is not empty, and
off-chain data is normalized.
- `Update.ofMembers_cases`, `LogEntry.exists_of_action?`: everything that reading an update can come to.
- `LogEntry.carried_of_upsert`: an upsert carries the name and the data of its payload.
- `LogEntry.lossless_of_carriedData?`: nothing of normalized data is lost in an image but what nests too deep.
-/
import ReplicatedOrders.Proofs.Wire
import ReplicatedOrders.Replica.Intake

namespace ReplicatedOrders

open Json

/-! ## Entries as they are written -/

namespace LogEntry

/-- the members of a payload that is an object -/
def members? (e : LogEntry) : Option Members := e.payload.bind fun t => (parse? t).bind Value.members?

/-- a field of the payload -/
def field? (e : LogEntry) (name : String) : Option Value := e.members?.bind fun ms => ms.get? name

/-- the normalized off-chain data that the payload carries -/
def carriedData? (e : LogEntry) : Option Value := (e.field? Order.offChainField).map Value.textual

/-- the name that the payload carries, if it is not empty -/
def carriedName? (e : LogEntry) : Option String :=
  (((e.field? Order.bookField).map Value.textual).bind Value.text?).filter (· ≠ "")

end LogEntry

/-! ## Reading an update -/

/-- what `leaf` reads is the textual form of the field, if that is a text -/
theorem Update.leaf_eq_ok {ms : Members} {f : UpdateField} {t : Option String} (h : Update.leaf ms f = .ok t) :
    ((ms.get? f.name).map Value.textual).bind Value.text? = t := by
  unfold leaf at h
  split at h
  · next hn => rw [hn]; cases h; rfl
  · next hn => rw [hn]; cases h; rfl
  · next v hv hnull =>
    rw [hnull]
    simp only [Option.map_some, Option.bind_some]
    split at h
    · next s hs => rw [hs]; cases h; rfl
    · cases h

/-- **Reading an update.** The hash is a text that is not empty. A deletion has nothing else, and every other update has
the name of its payload if that is not empty, and the data if that is not null. -/
theorem Update.ofMembers_cases {ms : Members} {u : Update} (h : Update.ofMembers ms = .ok u) :
    ∃ hash deleted, leaf ms .orderHash = .ok (some hash) ∧ hash ≠ "" ∧ leaf ms .deleted = .ok deleted ∧
      (deleted.any marksDeletion = true ∧ u = ⟨hash, none, none, true⟩ ∨
        deleted.any marksDeletion = false ∧ ∃ name, leaf ms .orderBookName = .ok name ∧
          u = ⟨hash, name.filter (· ≠ ""),
            ((ms.get? Order.offChainField).map Value.textual).filter fun v => !v.isNull, false⟩) := by
  simp only [ofMembers, bind, Except.bind] at h
  cases hh : leaf ms .orderHash with
  | error e => simp [hh] at h
  | ok hash =>
    simp only [hh] at h
    split at h
    · cases h
    · cases h
    · next hash' hne =>
      have hhash : hash' ≠ "" := by
        rintro rfl
        exact hne rfl
      cases hd : leaf ms .deleted with
      | error e => simp [hd] at h
      | ok deleted =>
        simp only [hd] at h
        refine ⟨hash', deleted, rfl, hhash, rfl, ?_⟩
        cases hm : deleted.any marksDeletion with
        | true =>
          rw [hm] at h
          cases h
          exact Or.inl ⟨rfl, rfl⟩
        | false =>
          rw [hm] at h
          cases hn : leaf ms .orderBookName with
          | error e => simp [hn] at h
          | ok name =>
            simp only [hn] at h
            cases h
            exact Or.inr ⟨rfl, name, rfl, rfl⟩

namespace LogEntry

/-- an entry with an action has a payload that is read as an update -/
theorem exists_of_action? {e : LogEntry} {a : Action} (h : e.action? = some a) :
    ∃ ms u, e.members? = some ms ∧ Update.ofMembers ms = .ok u ∧ u.action = a := by
  obtain ⟨payload, hp, ha⟩ := Option.bind_eq_some_iff.1 h
  cases hu : Update.decode payload with
  | error err => simp [hu] at ha
  | ok u =>
    simp only [hu, Option.some.injEq] at ha
    unfold Update.decode at hu
    split at hu
    · cases hu
    · next ms hv => exact ⟨ms, u, by simp [members?, hp, parse?, hv, Value.members?], hu, ha⟩
    · cases hu

/-- an upsert carries the name and the data that stand in its payload -/
theorem carried_of_upsert {e : LogEntry} {hash : String} {bookName : Option String} {data : Value}
    (h : e.action? = some (.upsert hash bookName data)) : e.carriedName? = bookName ∧ e.carriedData? = some data := by
  obtain ⟨ms, u, hms, hu, ha⟩ := exists_of_action? h
  obtain ⟨hash', deleted, -, -, -, ⟨-, rfl⟩ | ⟨-, name, hn, rfl⟩⟩ := Update.ofMembers_cases hu
  · simp [Update.action] at ha
  · cases hoff : ((ms.get? Order.offChainField).map Value.textual).filter fun v => !v.isNull with
    | none => simp [Update.action, hoff] at ha
    | some w =>
      simp only [Update.action, hoff, Bool.false_eq_true, if_false, Action.upsert.injEq] at ha
      obtain ⟨-, rfl, rfl⟩ := ha
      have hname : ((ms.get? Order.bookField).map Value.textual).bind Value.text? = name := Update.leaf_eq_ok hn
      refine ⟨?_, ?_⟩
      · simp only [carriedName?, field?, hms, Option.bind_some, hname]
      · simp only [carriedData?, field?, hms, Option.bind_some]
        exact (Option.filter_eq_some_iff.1 hoff).1

theorem hash_ne_of_action? {e : LogEntry} {a : Action} (h : e.action? = some a) : a.hash ≠ "" := by
  obtain ⟨ms, u, -, hu, rfl⟩ := exists_of_action? h
  obtain ⟨hash, deleted, -, hne, -, ⟨-, rfl⟩ | ⟨-, name, -, rfl⟩⟩ := Update.ofMembers_cases hu
  · exact hne
  · simp only [Update.action, Bool.false_eq_true, if_false]
    split <;> exact hne

/-- off-chain data is normalized when it is read, so nothing of it is lost in an image but what nests too deep -/
theorem lossless_of_carriedData? {e : LogEntry} {v : Value} (h : e.carriedData? = some v) : v.Lossless := by
  obtain ⟨w, hw, rfl⟩ := Option.map_eq_some_iff.1 h
  obtain ⟨ms, hms, hget⟩ := Option.bind_eq_some_iff.1 hw
  obtain ⟨payload, -, hpayload⟩ := Option.bind_eq_some_iff.1 hms
  obtain ⟨x, hx, hmembers⟩ := Option.bind_eq_some_iff.1 hpayload
  have hcanonical : x.Canonical := by
    unfold parse? at hx
    split at hx
    · next y hy => cases hx; exact (Value.canonical_of_decode hy).1
    · cases hx
  cases hcanonical with
  | object hr hin =>
    cases hmembers
    have hc := hin _ (Members.mem_of_get? hget)
    exact ⟨Value.canonical_textual hc, Value.noReal_textual hc⟩
  | _ => cases hmembers

end LogEntry

end ReplicatedOrders
