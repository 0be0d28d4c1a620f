/-
Verdicts: what becomes of an entry, in one value.

An entry is stale, malformed or skipped, or it deletes or upserts an order. After an upsert comes an attempt, which
finds the order complete, fails, or finds data. The verdict depends on the cursor and on the order of one hash, and it
says all there is to say: what the counters and totals grow by, and what is written back to the update stream.
- `Store.get?_step`: an accepted entry changes the order of its own hash, by what that order was.
- `Replica.process_verdict`: an entry leaves behind what its verdict says.
- `Log.append_armed`: an append adds a line or spends a fault.
-/
import ReplicatedOrders.Proofs.Attempt
import ReplicatedOrders.Proofs.Replay

namespace ReplicatedOrders

/-! ## Attempts at one order -/

/-- how an attempt at an order ends -/
inductive Finding where
  /-- the order is complete already, and nobody is asked -/
  | complete
  | failed
  | found (data : OnChainData)

namespace Registry

def finding (g : Registry) (o : Order) : Finding :=
  if o.isEnriched then .complete
  else match (g.fetched o).reply with
    | .ok data => .found data
    | .error _ => .failed

/-- the order after an attempt -/
def settled (g : Registry) (o : Order) : Order :=
  match g.finding o with
  | .found data => { o with onChainData := some data }
  | _ => o

variable {g : Registry} {o : Order}

theorem finding_complete (h : o.isEnriched = true) : g.finding o = .complete := if_pos h

theorem finding_failed {e : ReplicaError} (h : o.isEnriched = false) (hr : (g.fetched o).reply = .error e) :
    g.finding o = .failed := by
  simp [finding, h, hr]

theorem finding_found {data : OnChainData} (h : o.isEnriched = false) (hr : (g.fetched o).reply = .ok data) :
    g.finding o = .found data := by
  simp [finding, h, hr]

end Registry

namespace Store

/-- an attempt settles the order of its hash -/
theorem get?_attempt (g : Registry) (s : Store) (hash key : String) :
    (s.attempt g hash).get? key = if hash = key then (s.get? key).map g.settled else s.get? key := by
  unfold attempt
  split
  · next hnone =>
    split
    · next hk => rw [← hk, hnone]; rfl
    · rfl
  · next o ho =>
    -- the order stays as it is unless data is found
    have hstays : (∀ data, g.finding o ≠ .found data) →
        s.get? key = if hash = key then (s.get? key).map g.settled else s.get? key := by
      intro hnot
      have hsettled : g.settled o = o := by
        unfold Registry.settled
        split
        · next data hfound => exact absurd hfound (hnot data)
        · rfl
      split
      · next hk => rw [← hk, ho, Option.map_some, hsettled]
      · rfl
    by_cases he : o.isEnriched = true
    · rw [if_pos he]
      exact hstays fun data => by rw [Registry.finding_complete he]; exact nofun
    · rw [if_neg he]
      rw [Bool.not_eq_true] at he
      split
      · next data hr =>
        rw [get?_merge]
        split
        · next hk =>
          rw [← hk, ho, Option.map_some, Option.map_some, Registry.settled, Registry.finding_found he hr]
        · rfl
      · next hr => exact hstays fun data => by rw [Registry.finding_failed he hr]; exact nofun

theorem cursor_attempt (g : Registry) (s : Store) (hash : String) : (s.attempt g hash).cursor = s.cursor := by
  unfold attempt
  split
  · rfl
  · split
    · rfl
    · split
      · exact cursor_merge _ _ _
      · rfl

theorem cursor_step (g : Registry) (s : Store) (e : LogEntry) : (s.step g e).cursor = max s.cursor e.id := by
  unfold step
  split
  · split
    · rw [cursor_attempt, cursor_accept]
    · next h => exact (EntryId.max_eq_left h).symm
  · exact cursor_accept s e

end Store

/-- the order of `key` after an accepted action, and after the attempt that follows an upsert -/
def Action.settle (g : Registry) (key : String) (a : Action) (o : Option Order) : Option Order :=
  match a with
  | .upsert hash _ _ => if hash = key then (a.on key o).map g.settled else o
  | _ => a.on key o

/-- an action concerns no order but that of its hash -/
theorem Action.settle_of_ne {g : Registry} {key : String} {a : Action} (h : a.hash ≠ key) (o : Option Order) :
    a.settle g key o = o := by
  cases a with
  | delete hash => exact if_neg h
  | upsert hash bookName data => exact if_neg h
  | skip hash => rfl

/-- **An accepted entry settles the order of its own hash,** by its action and by what that order was. -/
theorem Store.get?_step {s : Store} {e : LogEntry} (h : s.cursor < e.id) (g : Registry) (key : String) :
    (s.step g e).get? key = e.action?.elim (s.get? key) fun a => a.settle g key (s.get? key) := by
  have haccept := s.get?_accept e key
  rw [if_pos h, LogEntry.on] at haccept
  unfold step
  cases ha : e.action? with
  | none => rw [ha] at haccept; exact haccept
  | some a =>
    rw [ha] at haccept
    cases a with
    | delete hash => exact haccept
    | skip hash => exact haccept
    | upsert hash bookName data =>
      simp only [if_pos h, get?_attempt, Option.elim_some, Action.settle]
      split
      · rw [haccept]
      · next hk => exact haccept.trans (if_neg hk)

/-! ## Verdicts -/

/-- what becomes of an entry -/
inductive Verdict where
  /-- the entry is at or behind the cursor -/
  | stale
  /-- the entry is no update -/
  | malformed
  | skipped
  | deleted (hash : String) (existed : Bool)
  | upserted (hash : String) (finding : Finding)

/-- the verdict on an accepted action, from the order of its hash -/
def Action.verdict (g : Registry) (a : Action) (o : Option Order) : Verdict :=
  match a with
  | .delete hash => .deleted hash o.isSome
  | .upsert hash bookName data => .upserted hash (g.finding (Store.rewrite bookName data (o.getD { hash })))
  | .skip _ => .skipped

def Store.verdict (g : Registry) (s : Store) (e : LogEntry) : Verdict :=
  if s.cursor < e.id then e.action?.elim .malformed fun a => a.verdict g (s.get? a.hash) else .stale

namespace Store

variable {s : Store} {e : LogEntry} {g : Registry}

theorem verdict_stale (h : ¬ s.cursor < e.id) : s.verdict g e = .stale := if_neg h

theorem verdict_malformed (h : s.cursor < e.id) (ha : e.action? = none) : s.verdict g e = .malformed := by
  rw [verdict, if_pos h, ha, Option.elim_none]

theorem verdict_accepted (h : s.cursor < e.id) {a : Action} (ha : e.action? = some a) :
    s.verdict g e = a.verdict g (s.get? a.hash) := by
  rw [verdict, if_pos h, ha, Option.elim_some]

end Store

/-! ## What a verdict leaves behind -/

def Counters.after (c : Counters) (v : Verdict) : Counters :=
  let c := { c with received := c.received + 1 }
  match v with
  | .stale => { c with stale := c.stale + 1 }
  | .malformed => { c with malformed := c.malformed + 1 }
  | .deleted _ _ => { c with deletes := c.deletes + 1 }
  | .upserted _ .failed => { c with failed := c.failed + 1 }
  | .upserted _ (.found _) => { c with enriched := c.enriched + 1 }
  | _ => c

def Totals.after (t : Totals) : Verdict → Totals
  | .deleted _ true => { t with deletes := t.deletes + 1 }
  | .upserted _ (.found _) => { t with upserts := t.upserts + 1, enrichments := t.enrichments + 1 }
  | .upserted _ _ => { t with upserts := t.upserts + 1 }
  | _ => t

/-- what is written back to the update stream -/
def Verdict.delta? : Verdict → Option Delta
  | .upserted hash (.found data) => some ⟨hash, data⟩
  | _ => none

/-- write back a delta; the append may fail -/
def Log.announce (l : Log) (d : Delta) : Log := (l.append (some d.text)).1

def Log.after (l : Log) (v : Verdict) : Log := v.delta?.elim l l.announce

/-- so many appends will still fail -/
def Log.armed (l : Log) : Nat := l.failingAppends + l.appendFaults.count true

/-- **An append adds a line or spends a fault:** it fails exactly if it does the latter. -/
theorem Log.append_armed (l : Log) (payload : Option String) :
    (l.append payload).2 = .error appendFault ∧ (l.append payload).1.lines = l.lines ∧
        l.armed = (l.append payload).1.armed + 1 ∨
      (l.append payload).2 = .ok l.nextId ∧ (l.append payload).1.lines = l.lines ++ [⟨⟨l.nextId, payload⟩, 0⟩] ∧
        l.armed = (l.append payload).1.armed := by
  unfold append
  split
  · next n hn => exact Or.inl ⟨rfl, rfl, by rw [armed, hn]; simp only [armed]; omega⟩
  · next hn =>
    dsimp only
    split
    · next fs hfaults => exact Or.inl ⟨rfl, rfl, by simp [armed, hn, hfaults]⟩
    · next hfaults =>
      refine Or.inr ⟨rfl, rfl, ?_⟩
      cases hfs : l.appendFaults with
      | nil => simp [armed, push, hfs, hn]
      | cons b fs =>
        cases b with
        | true => exact absurd hfs (hfaults fs)
        | false => simp [armed, push, hfs, hn]

namespace Store

variable {s : Store} {e : LogEntry} (h : s.cursor < e.id)
include h

theorem totals_accept_delete {hash : String} (ha : e.action? = some (.delete hash)) :
    (s.accept e).totals = s.totals.after (.deleted hash (s.get? hash).isSome) := by
  simp only [accept, ha, apply, advance_fresh h]
  cases ho : s.get? hash with
  | none =>
    have hgone : get? { s with cursor := e.id } hash = none := ho
    rw [hgone]
    rfl
  | some o =>
    have hstands : get? { s with cursor := e.id } hash = some o := ho
    rw [hstands]
    rfl

theorem totals_accept_upsert {hash : String} {bookName : Option String} {data : Json.Value}
    (ha : e.action? = some (.upsert hash bookName data)) :
    (s.accept e).totals = { s.totals with upserts := s.totals.upserts + 1 } := by
  simp only [accept, ha, apply, advance_fresh h]

/-- the order of the hash right after its upsert -/
theorem get?_accept_upsert {hash : String} {bookName : Option String} {data : Json.Value}
    (ha : e.action? = some (.upsert hash bookName data)) :
    (s.accept e).get? hash = some (rewrite bookName data ((s.get? hash).getD { hash })) := by
  rw [get?_accept, if_pos h, LogEntry.on, ha]
  exact if_pos rfl

end Store

namespace Replica

/-- **An entry leaves behind what its verdict says.** -/
theorem process_verdict {g : Registry} (hg : g.Quiet) (r : Replica) (e : LogEntry) :
    (r.process g e).counters = r.counters.after (r.store.verdict g e) ∧
      (r.process g e).store.totals = r.store.totals.after (r.store.verdict g e) ∧
      (r.process g e).updates = r.updates.after (r.store.verdict g e) := by
  have haccepted := r.accept_accepted e
  unfold process
  generalize r.accept e = p at haccepted ⊢
  cases haccepted with
  | stale h =>
    rw [Store.verdict_stale h]
    exact ⟨rfl, rfl, rfl⟩
  | malformed h ha =>
    rw [Store.verdict_malformed h ha]
    exact ⟨rfl, rfl, rfl⟩
  | skipped h ha =>
    rw [Store.verdict_accepted h ha]
    exact ⟨rfl, rfl, rfl⟩
  | deleted h ha =>
    rw [Store.verdict_accepted h ha]
    exact ⟨rfl, Store.totals_accept_delete h ha, rfl⟩
  | @upserted hash bookName data h ha =>
    rw [Store.verdict_accepted h ha]
    have hstands := Store.get?_accept_upsert h ha
    have htotals := Store.totals_accept_upsert h ha
    have hfinding : ∀ f, g.finding (Store.rewrite bookName data ((r.store.get? hash).getD { hash })) = f →
        Action.verdict g (.upsert hash bookName data) (r.store.get? hash) = .upserted hash f :=
      fun f hf => congrArg (Verdict.upserted hash) hf
    dsimp only [Action.hash]
    have hattempted := enrich_attempted hg
      { r with store := r.store.accept e, counters := { r.counters with received := r.counters.received + 1 } } hash
    generalize enrich g _ hash = p at hattempted ⊢
    cases hattempted with
    | missing hnone =>
      rw [hstands] at hnone
      cases hnone
    | complete ho he =>
      rw [hstands] at ho
      cases ho
      rw [hfinding _ (Registry.finding_complete he)]
      exact ⟨rfl, htotals, rfl⟩
    | failed ho he hr =>
      rw [hstands] at ho
      cases ho
      rw [hfinding _ (Registry.finding_failed he hr)]
      exact ⟨rfl, htotals, rfl⟩
    | merged ho he hr =>
      have hmerged := Store.totals_merge ho
      rw [hstands] at ho
      cases ho
      rw [hfinding _ (Registry.finding_found he hr)]
      exact ⟨rfl, (hmerged _).trans (by rw [htotals]; rfl), rfl⟩

end Replica

end ReplicatedOrders
