/-
Attempts: everything that one attempt at enrichment and one entry can come to.

If the sources do not write to the store, an attempt ends in one of four ways, and each way fixes the whole replica: an
order that is missing or complete stays as it is, a failed lookup is counted, and a reply is merged, counted and written
back. The section of an entry ends in one of five ways.
- `enrich_incomplete`: what an attempt does with sources that write to the store.
- `enrich_attempted`: every attempt ends in one of the four ways.
- `accept_accepted`: the section of every entry ends in one of five.
- `process_store`: what an entry does to the store, as a function of the store alone.
- `Store.Holds`: what is true of every order, and that entries and replies keep it.
-/
import ReplicatedOrders.Proofs.Sections

namespace ReplicatedOrders

/-! ## Writes of others -/

/-- writes one after the other -/
def Store.after (s : Store) (ws : List StoreWrite) : Store := ws.foldl StoreWrite.run s

/-- writes concern the store alone -/
theorem Replica.foldl_write (r : Replica) (ws : List StoreWrite) :
    ws.foldl write r = { r with store := r.store.after ws } := by
  induction ws generalizing r with
  | nil => rfl
  | cons w ws ih => exact ih (r.write w)

/-! ## Lookups -/

namespace Registry

/-- the course of the lookup for an order -/
def fetched (g : Registry) (o : Order) : Fetched := (({} : Replica).ask g o).2

/-- the question that the lookup asks, if it asks one -/
def asks (g : Registry) (o : Order) : List (String × Order) := (({} : Replica).ask g o).1.asked

end Registry

namespace Replica

/-- a lookup depends on the order alone, and is recorded -/
theorem ask_eq (g : Registry) (r : Replica) (o : Order) :
    r.ask g o = ({ r with asked := g.asks o ++ r.asked }, g.fetched o) := by
  unfold Registry.fetched Registry.asks ask
  split
  · rfl
  · split <;> rfl

/-- the lookup of an order reaches the source of its family, or fails before that -/
theorem fetched_eq_ok {g : Registry} {o : Order} {data : OnChainData} (h : (g.fetched o).reply = .ok data) :
    o.hasOffChainData = true ∧ ∃ source, g[o.bookName]? = some source ∧ (source o).reply = .ok data :=
  ask_reply h

/-! ## Attempts -/

/-- an attempt at an incomplete order settles the reply on what the writes of the lookup have made of the replica -/
theorem enrich_incomplete {r : Replica} {hash : String} {o : Order} (h : r.store.lookup hash = .incomplete o)
    (g : Registry) :
    r.enrich g hash =
      ({ r with store := r.store.after (g.fetched o).writes, asked := g.asks o ++ r.asked } : Replica).settle hash
        (g.fetched o).reply := by
  simp only [enrich, h, ask_eq, foldl_write]

/-- the ways in which an attempt can end, and what the replica is then -/
inductive Attempted (g : Registry) (r : Replica) (hash : String) : Replica × Except ReplicaError Enriched → Prop where
  | missing (h : r.store.get? hash = none) : Attempted g r hash (r, .ok .missing)
  | complete {o : Order} (h : r.store.get? hash = some o) (he : o.isEnriched = true) :
    Attempted g r hash (r, .ok .alreadyEnriched)
  | failed {o : Order} {e : ReplicaError} (h : r.store.get? hash = some o) (he : o.isEnriched = false)
    (hr : (g.fetched o).reply = .error e) :
    Attempted g r hash
      ({ r with
          asked := g.asks o ++ r.asked
          counters := { r.counters with failed := r.counters.failed + 1 } }, .error e)
  | merged {o : Order} {data : OnChainData} (h : r.store.get? hash = some o) (he : o.isEnriched = false)
    (hr : (g.fetched o).reply = .ok data) :
    Attempted g r hash
      ({ r with
          store := (r.store.merge hash data).1
          updates := (r.updates.append (some (Delta.text ⟨hash, data⟩))).1
          asked := g.asks o ++ r.asked
          counters := { r.counters with enriched := r.counters.enriched + 1 } }, .ok .enriched)

/-- **Every attempt ends in one of the four ways.** -/
theorem enrich_attempted {g : Registry} (hg : g.Quiet) (r : Replica) (hash : String) :
    Attempted g r hash (r.enrich g hash) := by
  cases ho : r.store.get? hash with
  | none =>
    have heq : r.enrich g hash = (r, .ok .missing) := by simp only [enrich, Store.lookup, ho]
    rw [heq]
    exact .missing ho
  | some o =>
    cases he : o.isEnriched with
    | true =>
      have heq : r.enrich g hash = (r, .ok .alreadyEnriched) := by simp only [enrich, Store.lookup, ho, he, if_true]
      rw [heq]
      exact .complete ho he
    | false =>
      have hlookup : r.store.lookup hash = .incomplete o := by simp [Store.lookup, ho, he]
      have hquiet : r.store.after (g.fetched o).writes = r.store :=
        congrArg r.store.after (ask_writes hg {} o : (g.fetched o).writes = [])
      rw [enrich_incomplete hlookup, hquiet]
      cases hr : (g.fetched o).reply with
      | error e => exact .failed ho he hr
      | ok data =>
        have hmerge : r.store.merge hash data = ((r.store.merge hash data).1, true) := by
          simp only [Store.merge, ho]
        simp only [settle, merge]
        rw [hmerge]
        exact .merged ho he hr

end Replica

/-! ## Entries -/

namespace Replica

/-- the ways in which the section of an entry can end, what the replica is then and whose attempt follows -/
inductive Accepted (r : Replica) (e : LogEntry) : Replica × Option String → Prop where
  | stale (h : ¬ r.store.cursor < e.id) :
    Accepted r e
      ({ r with
          counters := { r.counters with received := r.counters.received + 1, stale := r.counters.stale + 1 } }, none)
  | malformed (h : r.store.cursor < e.id) (ha : e.action? = none) :
    Accepted r e
      ({ r with
          store := { r.store with cursor := e.id }
          counters :=
            { r.counters with received := r.counters.received + 1, malformed := r.counters.malformed + 1 } }, none)
  | skipped {hash : String} (h : r.store.cursor < e.id) (ha : e.action? = some (.skip hash)) :
    Accepted r e
      ({ r with
          store := { r.store with cursor := e.id }
          counters := { r.counters with received := r.counters.received + 1 } }, none)
  | deleted {hash : String} (h : r.store.cursor < e.id) (ha : e.action? = some (.delete hash)) :
    Accepted r e
      ({ r with
          store := r.store.accept e
          counters := { r.counters with received := r.counters.received + 1, deletes := r.counters.deletes + 1 } },
        none)
  | upserted {hash : String} {bookName : Option String} {data : Json.Value} (h : r.store.cursor < e.id)
    (ha : e.action? = some (.upsert hash bookName data)) :
    Accepted r e
      ({ r with
          store := r.store.accept e
          counters := { r.counters with received := r.counters.received + 1 } }, some hash)

/-- **The section of every entry ends in one of the five ways.** -/
theorem accept_accepted (r : Replica) (e : LogEntry) : Accepted r e (r.accept e) := by
  by_cases h : r.store.cursor < e.id
  · cases ha : e.action? with
    | none =>
      have heq := Accepted.malformed (r := r) h ha
      simpa only [accept, ha, Store.advance_fresh h] using heq
    | some a =>
      cases a with
      | delete hash =>
        have heq := Accepted.deleted (r := r) h ha
        simp only [accept, Store.accept, ha, Store.apply, Store.advance_fresh h] at heq ⊢
        split at heq <;> exact heq
      | upsert hash bookName data =>
        have heq := Accepted.upserted (r := r) h ha
        simpa only [accept, Store.accept, ha, Store.apply, Store.advance_fresh h, Action.hash] using heq
      | skip hash =>
        have heq := Accepted.skipped (r := r) h ha
        simpa only [accept, ha, Store.apply, Store.advance_fresh h] using heq
  · have heq := Accepted.stale (r := r) h
    cases ha : e.action? with
    | none => simpa only [accept, ha, Store.advance_stale h] using heq
    | some a => simpa only [accept, ha, Store.apply_stale h] using heq

end Replica

/-! ## The store alone -/

namespace Store

/-- what an attempt does to the store -/
def attempt (g : Registry) (s : Store) (hash : String) : Store :=
  match s.get? hash with
  | none => s
  | some o =>
    if o.isEnriched then s
    else match (g.fetched o).reply with
      | .ok data => (s.merge hash data).1
      | .error _ => s

/-- what an entry does to the store: its section, and the attempt that follows an accepted upsert -/
def step (g : Registry) (s : Store) (e : LogEntry) : Store :=
  match e.action? with
  | some (.upsert hash _ _) => if s.cursor < e.id then (s.accept e).attempt g hash else s
  | _ => s.accept e

/-- an entry at or behind the cursor leaves the store alone -/
theorem accept_stale {s : Store} {e : LogEntry} (h : ¬ s.cursor < e.id) : s.accept e = s := by
  unfold accept
  split
  · rw [advance_stale h]
  · rw [apply_stale h]

theorem step_stale {s : Store} {e : LogEntry} (h : ¬ s.cursor < e.id) (g : Registry) : s.step g e = s := by
  unfold step
  split
  · rw [if_neg h]
  · exact accept_stale h

end Store

namespace Replica

variable {g : Registry} (hg : g.Quiet)
include hg

theorem enrich_store (r : Replica) (hash : String) : (r.enrich g hash).1.store = r.store.attempt g hash := by
  have hattempted := enrich_attempted hg r hash
  unfold Store.attempt
  generalize r.enrich g hash = p at hattempted ⊢
  cases hattempted with
  | missing h => simp only [h]
  | complete h he => simp only [h, he, if_true]
  | failed h he hr => simp only [h, he, hr, Bool.false_eq_true, if_false]
  | merged h he hr => simp only [h, he, hr, Bool.false_eq_true, if_false]

/-- For the store, an entry is a step that depends on the store alone. -/
theorem process_store (r : Replica) (e : LogEntry) : (r.process g e).store = r.store.step g e := by
  have haccepted := r.accept_accepted e
  have hstore := r.accept_store e
  unfold process
  generalize r.accept e = p at haccepted hstore ⊢
  cases haccepted with
  | stale h =>
    rw [Store.step_stale h]
  | malformed h ha | skipped h ha =>
    rw [Store.step, ha]
    exact hstore
  | deleted h ha =>
    rw [Store.step, ha]
  | upserted h ha =>
    simp only [Store.step, ha, if_pos h]
    exact enrich_store hg _ _

theorem processAll_store (r : Replica) (es : List LogEntry) :
    (r.processAll g es).store = es.foldl (Store.step g) r.store := by
  induction es generalizing r with
  | nil => rfl
  | cons e es ih =>
    have hes := ih (r.process g e)
    rw [process_store hg] at hes
    exact hes

end Replica

/-! ## What is true of every order -/

/-- every order and the hash that it stands under have a property -/
def Store.Holds (P : String → Order → Prop) (s : Store) : Prop := ∀ hash o, s.get? hash = some o → P hash o

section

variable {P : String → Order → Prop}

namespace Store.Holds

variable {s : Store} (h : s.Holds P)
include h

/-- actions keep a property that upserts keep, and that the first upsert of an order gives it -/
theorem apply (id : EntryId) {a : Action}
    (hrewrite : ∀ hash bookName data o, a = .upsert hash bookName data → P hash o ∨ o = { hash } →
      P hash (rewrite bookName data o)) : (s.apply id a).1.Holds P := by
  intro key o ho
  by_cases hfresh : s.cursor < id
  · rw [get?_apply_fresh hfresh] at ho
    cases a with
    | delete hash =>
      simp only [Action.on] at ho
      split at ho
      · cases ho
      · exact h key o ho
    | upsert hash bookName data =>
      simp only [Action.on] at ho
      split at ho
      · next hk =>
        subst hk
        cases ho
        refine hrewrite hash bookName data _ rfl ?_
        cases hold : s.get? hash with
        | none => exact Or.inr rfl
        | some old => exact Or.inl (h hash old hold)
      · exact h key o ho
    | skip hash => exact h key o ho
  · rw [apply_stale hfresh] at ho
    exact h key o ho

theorem advance (id : EntryId) : (s.advance id).1.Holds P := by
  intro key o ho
  rw [get?_advance] at ho
  exact h key o ho

/-- entries keep what their actions keep -/
theorem accept {e : LogEntry}
    (hrewrite : ∀ hash bookName data o, e.action? = some (.upsert hash bookName data) → P hash o ∨ o = { hash } →
      P hash (rewrite bookName data o)) : (s.accept e).Holds P := by
  unfold Store.accept
  cases ha : e.action? with
  | none => exact h.advance e.id
  | some a =>
    refine h.apply e.id fun hash bookName data o heq => hrewrite hash bookName data o ?_
    rw [ha, heq]

/-- a merge changes the order of its hash at most -/
theorem merge (hash : String) (data : OnChainData)
    (hmerge : ∀ o, s.get? hash = some o → P hash { o with onChainData := some data }) :
    (s.merge hash data).1.Holds P := by
  intro key o ho
  rw [get?_merge] at ho
  split at ho
  · next hk =>
    subst hk
    obtain ⟨old, hold, rfl⟩ := Option.map_eq_some_iff.1 ho
    exact hmerge old hold
  · exact h key o ho

/-- an attempt merges at most what a source says of the order as it stands -/
theorem attempt {g : Registry} (hash : String)
    (hmerge : ∀ hash o data, P hash o → (g.fetched o).reply = .ok data →
      P hash { o with onChainData := some data }) : (s.attempt g hash).Holds P := by
  unfold Store.attempt
  cases hstands : s.get? hash with
  | none => exact h
  | some asked =>
    cases he : asked.isEnriched with
    | true => simpa [he] using h
    | false =>
      simp only [he, Bool.false_eq_true, if_false]
      split
      · next data hr =>
        refine h.merge hash data fun o ho => ?_
        cases hstands.symm.trans ho
        exact hmerge hash asked data (h hash asked hstands) hr
      · exact h

end Store.Holds

/-- one step: the section of an entry, and a merge if a source replies -/
theorem Replica.process_holds {g : Registry} (hg : g.Quiet) {r : Replica} (h : r.store.Holds P) {e : LogEntry}
    (hrewrite : ∀ hash bookName data o, e.action? = some (.upsert hash bookName data) → P hash o ∨ o = { hash } →
      P hash (Store.rewrite bookName data o))
    (hmerge : ∀ hash o data, P hash o → (g.fetched o).reply = .ok data →
      P hash { o with onChainData := some data }) : (r.process g e).store.Holds P := by
  have haccept := h.accept hrewrite
  rw [process_store hg, Store.step]
  split
  · split
    · exact haccept.attempt _ hmerge
    · exact h
  · exact haccept

end

end ReplicatedOrders
