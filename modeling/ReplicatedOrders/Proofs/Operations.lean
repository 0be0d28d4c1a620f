/-
Operations: what an entry of the update stream does to the store, by the operations that everyone may call.

The section of an entry has code of its own. The operations set the cursor, delete an order, or upsert one by a change,
and an upsert by a change writes the hash into the order, which the section of an entry does not. So the two ways agree
where every order stands under its own hash, as all orders do in a store that entries and operations have made.
- `Store.apply_upsert_eq_iff`: the exact condition for an upsert.
- `Store.accept_writes`: one accepted entry is its operations.
- `Store.acceptAll_writes`: so is a whole log, entry by entry.
- `Store.apply_operations`: an action by cases, with what it reports.
-/
import ReplicatedOrders.Proofs.Provenance

namespace ReplicatedOrders

/-! ## One action -/

namespace Action

/-- the operations that do an action, once the cursor is set -/
def writes : Action → List StoreWrite
  | delete hash => [.delete hash]
  | upsert hash bookName data =>
    [.upsert hash fun o => { o with bookName := bookName.getD o.bookName, offChainData := data }]
  | skip _ => []

end Action

namespace Store

variable {s : Store} {id : EntryId}

theorem snd_advance : (s.advance id).2 = true ↔ s.cursor < id := by
  by_cases h : s.cursor < id
  · rw [advance_fresh h]
    exact iff_of_true rfl h
  · rw [advance_stale h]
    exact iff_of_false Bool.false_ne_true h

theorem apply_delete (h : s.cursor < id) (hash : String) :
    s.apply id (.delete hash) =
      (((s.advance id).1.delete hash).1, .deleted ((s.advance id).1.delete hash).2.isSome) := by
  have hget : (s.advance id).1.get? hash = s.get? hash := s.get?_advance id hash
  rw [advance_fresh h] at hget ⊢
  simp only [apply, advance_fresh h, delete]
  rw [hget]
  cases s.get? hash <;> rfl

theorem apply_skip (h : s.cursor < id) (hash : String) : s.apply id (.skip hash) = ((s.advance id).1, .skipped) := by
  rw [advance_fresh h]
  simp only [apply, advance_fresh h]

/-- **An upsert by an entry and by a change** are the same exactly if the order, where there is one, has the hash that
it stands under. -/
theorem apply_upsert_eq_iff (h : s.cursor < id) (hash : String) (bookName : Option String) (data : Json.Value) :
    s.apply id (.upsert hash bookName data) =
        (((s.advance id).1.upsert hash
          fun o => { o with bookName := bookName.getD o.bookName, offChainData := data }).1, .upserted) ↔
      ∀ o, s.get? hash = some o → o.hash = hash := by
  constructor
  · intro heq o ho
    -- what stands under the hash tells the two stores apart
    have hentry := get?_apply_fresh h (.upsert hash bookName data) hash
    rw [heq, get?_upsert, if_pos rfl, get?_advance, ho, Action.on, if_pos rfl] at hentry
    exact (congrArg Order.hash (Option.some.inj hentry)).symm
  · intro hown
    have hstands : ((s.get? hash).getD { hash }).hash = hash := by
      cases ho : s.get? hash with
      | none => rfl
      | some o => exact hown o ho
    have hget : (s.advance id).1.get? hash = s.get? hash := s.get?_advance id hash
    rw [advance_fresh h] at hget ⊢
    simp only [apply, advance_fresh h, upsert]
    rw [hget]
    generalize (s.get? hash).getD { hash } = o at hstands ⊢
    subst hstands
    rfl

theorem apply_upsert (hs : s.Own) (h : s.cursor < id) (hash : String) (bookName : Option String) (data : Json.Value) :
    s.apply id (.upsert hash bookName data) =
      (((s.advance id).1.upsert hash
        fun o => { o with bookName := bookName.getD o.bookName, offChainData := data }).1, .upserted) :=
  (apply_upsert_eq_iff h hash bookName data).2 fun o ho => hs hash o ho

end Store

/-! ## A whole log -/

/-- the operations that do what an entry says -/
def LogEntry.writes (e : LogEntry) : List StoreWrite := .advance e.id :: e.action?.elim [] Action.writes

namespace Store

variable {s : Store}

theorem Own.acceptAll (hs : s.Own) (es : List LogEntry) : (s.acceptAll es).Own := by
  induction es generalizing s with
  | nil => exact hs
  | cons e es ih => exact ih (hs.accept e)

/-- **One entry.** An accepted entry is its operations, one after the other. -/
theorem accept_writes (hs : s.Own) {e : LogEntry} (h : s.cursor < e.id) : s.accept e = s.after e.writes := by
  unfold accept LogEntry.writes
  cases e.action? with
  | none => rfl
  | some a =>
    cases a with
    | delete hash => exact congrArg Prod.fst (apply_delete h hash)
    | upsert hash bookName data => exact congrArg Prod.fst (apply_upsert hs h hash bookName data)
    | skip hash => exact congrArg Prod.fst (apply_skip h hash)

/-- **A whole log.** What a log leaves in the store is what the operations of its accepted entries leave. -/
theorem acceptAll_writes (hs : s.Own) (es : List LogEntry) :
    s.acceptAll es = s.after ((accepted s.cursor es).flatMap LogEntry.writes) := by
  induction es using List.reverseRecOn with
  | nil => rfl
  | append_singleton es e ih =>
    rw [acceptAll_snoc, accepted_snoc, List.flatMap_append, after, List.foldl_append]
    by_cases h : e.IsFresh s.cursor es
    · have hfresh : (s.acceptAll es).cursor < e.id := (cursor_lt_iff_isFresh s es e).2 h
      rw [if_pos h, accept_writes (hs.acceptAll es) hfresh, ih]
      simp [after]
    · have hstale : ¬ (s.acceptAll es).cursor < e.id := mt (cursor_lt_iff_isFresh s es e).1 h
      have hkept : (s.acceptAll es).accept e = s.acceptAll es := by
        unfold accept
        cases e.action? with
        | none => exact congrArg Prod.fst (advance_stale hstale)
        | some a => exact congrArg Prod.fst (apply_stale hstale a)
      rw [if_neg h, hkept, ih]
      rfl

/-- **An action by operations.** Where every order stands under its own hash, an entry is stale exactly if the cursor
refuses its id, and then nothing changes. Else the store is the one that the cursor step and one operation leave: a
deletion, which reports whether it found an order, an upsert that sets the name if there is one and the off-chain data,
or none at all. -/
theorem apply_operations (hs : s.Own) (id : EntryId) (a : Action) :
    ((s.apply id a).2 = .stale ↔ (s.advance id).2 = false) ∧
      ((s.advance id).2 = false → (s.apply id a).1 = s) ∧
      ((s.advance id).2 = true →
        match a with
        | .delete hash =>
          s.apply id a =
            (((s.advance id).1.delete hash).1, .deleted ((s.advance id).1.delete hash).2.isSome)
        | .upsert hash bookName data =>
          s.apply id a =
            (((s.advance id).1.upsert hash
              fun o => { o with bookName := bookName.getD o.bookName, offChainData := data }).1, .upserted)
        | .skip _ => s.apply id a = ((s.advance id).1, .skipped)) := by
  by_cases h : s.cursor < id
  · have hmoves : (s.advance id).2 = true := snd_advance.2 h
    rw [hmoves]
    cases a with
    | delete hash =>
      have hdelete := apply_delete h hash
      exact ⟨by simp [hdelete], nofun, fun _ => hdelete⟩
    | upsert hash bookName data =>
      have hupsert := apply_upsert hs h hash bookName data
      exact ⟨by simp [hupsert], nofun, fun _ => hupsert⟩
    | skip hash =>
      have hskip := apply_skip h hash
      exact ⟨by simp [hskip], nofun, fun _ => hskip⟩
  · have hrefused : (s.advance id).2 = false := Bool.eq_false_iff.2 (mt snd_advance.1 h)
    rw [hrefused, apply_stale h]
    exact ⟨iff_of_true rfl rfl, fun _ => rfl, nofun⟩

/-- an enriched order under its own hash -/
def ownStore : Store :=
  { orders := Std.ExtTreeMap.insert ∅ "a" { hash := "a", bookName := "F1", onChainData := some ⟨.null, 1, 2⟩ }
    cursor := ⟨3, 0⟩ }

theorem apply_operations_renamed :
    ownStore.Own ∧ (ownStore.advance ⟨3, 1⟩).2 = true ∧
      ownStore.apply ⟨3, 1⟩ (.upsert "a" (some "F2") (.text "1")) =
        (((ownStore.advance ⟨3, 1⟩).1.upsert "a"
          fun o => { o with bookName := (some "F2").getD o.bookName, offChainData := .text "1" }).1, .upserted) := by
  have hown : ownStore.Own := by
    intro hash o ho
    have ho : (Std.ExtTreeMap.insert (∅ : OrderMap) "a" _)[hash]? = some o := ho
    rw [getElem?_insert] at ho
    split at ho
    · next hk =>
      cases ho
      exact hk
    · simp at ho
  have hmoves : (ownStore.advance ⟨3, 1⟩).2 = true := by decide
  exact ⟨hown, hmoves, (apply_operations hown ⟨3, 1⟩ (.upsert "a" (some "F2") (.text "1"))).2.2 hmoves⟩

end Store

end ReplicatedOrders
