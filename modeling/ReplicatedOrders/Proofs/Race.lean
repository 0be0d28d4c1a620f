/-
Races: one attempt at enrichment while others write to the store.

An attempt looks an order up, gives the store away, asks a source, and comes back with the reply. Between its steps
others apply entries, move the cursor, and upsert, delete or merge orders. Whatever they do stays as they did it: the
attempt adds one merge of the reply if the order is there by then, and nothing otherwise.
- `Step.amid`: a task step by step, with writes of others before each further step.
- `amid_alone`: where nobody else writes, the steps of an attempt are `Replica.enrich`.
- `amid_raced`: the five ways in which an attempt can end, each with its whole effect.
- `enrich_race`: what the five ways have in common, in terms of what others made of the store.
-/
import ReplicatedOrders.Proofs.Attempt
import ReplicatedOrders.Replica.Task

namespace ReplicatedOrders

/-! ## Writes of others -/

theorem Store.after_append (s : Store) (ws ws' : List StoreWrite) : s.after (ws ++ ws') = (s.after ws).after ws' :=
  List.foldl_append

/-- do a task from one step on, with writes of others before each further step: the next step, or the answer -/
def Step.amid (g : Registry) : List (List StoreWrite) → Replica → Step → Replica × Except Answer Step
  | [], r, step => step.run g r
  | ws :: gaps, r, step =>
    match step.run g r with
    | (r, .ok next) => amid g gaps (ws.foldl Replica.write r) next
    | (r, .error a) => (r, .error a)

/-! ## The ends of an attempt -/

/-- what an attempt leaves behind -/
structure Ending where
  store : Store
  outcome : Except ReplicaError Enriched
  /-- the question to a source, if there was one -/
  question : Option (String × Order) := none
  /-- what was to be written back to the update stream, if anything was -/
  delta : Option Delta := none

/-- count an attempt that ended -/
def Counters.tally (c : Counters) : Except ReplicaError Enriched → Counters
  | .error _ => { c with failed := c.failed + 1 }
  | .ok .enriched => { c with enriched := c.enriched + 1 }
  | .ok _ => c

/-- the replica when an attempt has ended; the append of the delta may fail -/
def Replica.ended (r : Replica) (e : Ending) : Replica :=
  { r with
      store := e.store
      asked := e.question.toList ++ r.asked
      updates := e.delta.elim r.updates fun d => (r.updates.append (some d.text)).1
      counters := r.counters.tally e.outcome }

namespace Registry

variable {g : Registry} {o : Order}

/-- the question that a lookup asks, if it asks one -/
def question? (g : Registry) (o : Order) : Option (String × Order) :=
  if o.hasOffChainData && g[o.bookName]?.isSome then some (o.bookName, o) else none

theorem asks_eq (g : Registry) (o : Order) : g.asks o = (g.question? o).toList := by
  unfold asks question? Replica.ask
  cases o.hasOffChainData with
  | false => rfl
  | true => cases g[o.bookName]? <;> simp

/-- a source is asked only about an order with off-chain data, and only if it is registered for the order's family -/
theorem question?_eq_some {q : String × Order} (h : g.question? o = some q) :
    o.hasOffChainData = true ∧ (∃ source, g[o.bookName]? = some source) ∧ q = (o.bookName, o) := by
  unfold question? at h
  split at h
  · next hasked =>
    rw [Bool.and_eq_true, Option.isSome_iff_exists] at hasked
    exact ⟨hasked.1, hasked.2, (Option.some.inj h).symm⟩
  · cases h

theorem question?_of_reply {data : OnChainData} (h : (g.fetched o).reply = .ok data) :
    g.question? o = some (o.bookName, o) := by
  obtain ⟨hoff, source, hsource, -⟩ := Replica.fetched_eq_ok h
  simp [question?, hoff, hsource]

end Registry

/-- The ways in which an attempt can end that others race. The writes `early` come between the lookup and the question,
`late` between the reply and the merge, and `last` between the merge and the append. -/
inductive Raced (g : Registry) (s : Store) (hash : String) (early late last : List StoreWrite) : Ending → Prop where
  /-- the order is not there at first -/
  | missing (h : s.get? hash = none) : Raced g s hash early late last { store := s, outcome := .ok .missing }
  | complete {o : Order} (h : s.get? hash = some o) (he : o.isEnriched = true) :
    Raced g s hash early late last { store := s, outcome := .ok .alreadyEnriched }
  | failed {o : Order} {e : ReplicaError} (h : s.get? hash = some o) (he : o.isEnriched = false)
    (hr : (g.fetched o).reply = .error e) :
    Raced g s hash early late last { store := s.after early, outcome := .error e, question := g.question? o }
  /-- the order is gone when the reply comes -/
  | removed {o : Order} {data : OnChainData} (h : s.get? hash = some o) (he : o.isEnriched = false)
    (hr : (g.fetched o).reply = .ok data) (hgone : (s.after (early ++ late)).get? hash = none) :
    Raced g s hash early late last
      { store := s.after (early ++ late), outcome := .ok .missing, question := g.question? o }
  | merged {o o' : Order} {data : OnChainData} (h : s.get? hash = some o) (he : o.isEnriched = false)
    (hr : (g.fetched o).reply = .ok data) (hstands : (s.after (early ++ late)).get? hash = some o') :
    Raced g s hash early late last
      { store := ((s.after (early ++ late)).merge hash data).1.after last
        outcome := .ok .enriched
        question := g.question? o
        delta := some ⟨hash, data⟩ }

section

variable {g : Registry} (hg : g.Quiet)
include hg

/-- **Every attempt ends in one of the five ways,** and the store alone decides in which. -/
theorem amid_raced (s : Store) (hash : String) (early late last : List StoreWrite) :
    ∃ e, Raced g s hash early late last e ∧ ∀ r : Replica, r.store = s →
      (Step.lookup hash).amid g [early, late, last] r = (r.ended e, .error (.enriched e.outcome)) := by
  cases ho : s.get? hash with
  | none =>
    refine ⟨_, .missing ho, ?_⟩
    rintro r rfl
    simp only [Step.amid, Step.run, Store.lookup, ho]
    rfl
  | some o =>
    cases he : o.isEnriched with
    | true =>
      refine ⟨_, .complete ho he, ?_⟩
      rintro r rfl
      simp only [Step.amid, Step.run, Store.lookup, ho, he, if_true]
      rfl
    | false =>
      -- the question comes after the writes `early`
      have hwrites : (g.fetched o).writes = [] := Replica.ask_writes hg {} o
      have hasked : ∀ r : Replica, r.store = s →
          (Step.lookup hash).amid g [early, late, last] r =
            (Step.ask hash o).amid g [late, last] { r with store := s.after early } := by
        rintro r rfl
        simp only [Step.amid, Step.run, Store.lookup, ho, he, Bool.false_eq_true, if_false, Replica.foldl_write]
      cases hr : (g.fetched o).reply with
      | error e =>
        refine ⟨_, .failed ho he hr, fun r hs => ?_⟩
        rw [hasked r hs]
        simp only [Step.amid, Step.run, Replica.ask_eq, hwrites, hr, Step.afterWrites, Registry.asks_eq]
        rfl
      | ok data =>
        have hmerged : ∀ r : Replica, r.store = s →
            (Step.lookup hash).amid g [early, late, last] r =
              (Step.merge hash data).amid g [last]
                { r with store := s.after (early ++ late), asked := (g.question? o).toList ++ r.asked } := by
          intro r hs
          rw [hasked r hs]
          simp only [Step.amid, Step.run, Replica.ask_eq, hwrites, hr, Step.afterWrites, Replica.foldl_write,
            Store.after_append, Registry.asks_eq]
        cases hstands : (s.after (early ++ late)).get? hash with
        | none =>
          refine ⟨_, .removed ho he hr hstands, fun r hs => ?_⟩
          rw [hmerged r hs]
          simp only [Step.amid, Step.run, Replica.merge, Store.merge, hstands]
          rfl
        | some o' =>
          refine ⟨_, .merged ho he hr hstands, fun r hs => ?_⟩
          rw [hmerged r hs]
          simp only [Step.amid, Step.run, Replica.merge, Store.merge, hstands, Replica.foldl_write]
          rfl

/-- Where nobody else writes, the steps of an attempt are the attempt. -/
theorem amid_alone (r : Replica) (hash : String) :
    (Step.lookup hash).amid g [[], [], []] r = ((r.enrich g hash).1, .error (.enriched (r.enrich g hash).2)) := by
  unfold Replica.enrich
  cases hlookup : r.store.lookup hash with
  | settled o => simp only [Step.amid, Step.run, hlookup]
  | incomplete o =>
    have hwrites : (g.fetched o).writes = [] := Replica.ask_writes hg {} o
    simp only [Step.amid, Step.run, hlookup, Replica.ask_eq, hwrites, Step.afterWrites, List.foldl_nil]
    cases (g.fetched o).reply with
    | error e => rfl
    | ok data =>
      simp only [Replica.settle]
      generalize Replica.merge _ hash data = p
      obtain ⟨r', there⟩ := p
      cases there <;> rfl

/-- **An attempt that others race is one merge or nothing.** The store at its end is what others made of it, unless
the attempt succeeds. Then the order was there when the reply came, and the attempt set its on-chain data to the reply
and added one to the total; other orders, the cursor and the other totals are what others made of them. At most one
source is asked, about an incomplete order with off-chain data as it stood first. Something is written back exactly by
a successful attempt, and neither the store nor the outcome depends on the stream that it is written to. -/
theorem enrich_race (s : Store) (hash : String) (early late last : List StoreWrite) :
    ∃ e : Ending,
      (∀ r : Replica, r.store = s →
        (Step.lookup hash).amid g [early, late, last] r = (r.ended e, .error (.enriched e.outcome))) ∧
      (∀ q ∈ e.question, ∃ o, s.get? hash = some o ∧ o.isEnriched = false ∧ o.hasOffChainData = true ∧
        (∃ source, g[o.bookName]? = some source) ∧ q = (o.bookName, o)) ∧
      (e.outcome ≠ .ok .enriched →
        e.delta = none ∧ ∃ others, others <+: early ++ late ∧ e.store = s.after others) ∧
      (e.outcome = .ok .enriched →
        let before := s.after (early ++ late)
        ∃ (asked stands : Order) (source : Source) (data : OnChainData) (merged : Store),
          e.question = some (asked.bookName, asked) ∧ g[asked.bookName]? = some source ∧
          (source asked).reply = .ok data ∧ before.get? hash = some stands ∧
          merged.get? hash = some { stands with onChainData := some data } ∧
          (∀ key, key ≠ hash → merged.get? key = before.get? key) ∧ merged.cursor = before.cursor ∧
          merged.totals = { before.totals with enrichments := before.totals.enrichments + 1 } ∧
          e.store = merged.after last ∧ e.delta = some ⟨hash, data⟩) := by
  obtain ⟨e, hraced, hrun⟩ := amid_raced hg s hash early late last
  -- a question is about the order as it stood first
  have hquestion : ∀ o : Order, s.get? hash = some o → o.isEnriched = false → ∀ q ∈ g.question? o,
      ∃ o, s.get? hash = some o ∧ o.isEnriched = false ∧ o.hasOffChainData = true ∧
        (∃ source, g[o.bookName]? = some source) ∧ q = (o.bookName, o) := by
    intro o ho he q hq
    obtain ⟨hoff, hsource, rfl⟩ := Registry.question?_eq_some hq
    exact ⟨o, ho, he, hoff, hsource, rfl⟩
  refine ⟨e, hrun, ?_⟩
  cases hraced with
  | missing h | complete h he =>
    refine ⟨fun q hq => ?_, fun _ => ⟨rfl, [], List.nil_prefix, rfl⟩, fun hout => ?_⟩
    · cases hq
    · cases hout
  | failed h he hr =>
    exact ⟨hquestion _ h he, fun _ => ⟨rfl, early, List.prefix_append early late, rfl⟩, fun hout => by cases hout⟩
  | removed h he hr hgone =>
    exact ⟨hquestion _ h he, fun _ => ⟨rfl, _, List.prefix_rfl, rfl⟩, fun hout => by cases hout⟩
  | @merged o o' data h he hr hstands =>
    refine ⟨hquestion o h he, fun hout => absurd rfl hout, fun _ => ?_⟩
    obtain ⟨-, source, hsource, hreply⟩ := Replica.fetched_eq_ok hr
    refine ⟨o, o', source, data, ((s.after (early ++ late)).merge hash data).1, Registry.question?_of_reply hr,
      hsource, hreply, hstands, ?_, ?_, Store.cursor_merge _ _ _, Store.totals_merge hstands data, rfl, rfl⟩
    · rw [Store.get?_merge, if_pos rfl, hstands]
      rfl
    · intro key hkey
      rw [Store.get?_merge, if_neg (Ne.symm hkey)]

end

/-- how an attempt ended, if it did not fail -/
def Answer.enriched? : Except Answer Step → Option Enriched
  | .error (.enriched out) => out.toOption
  | _ => none

/-- During the lookup an order is deleted and stated anew under another name, and it is deleted once more after the
merge: the reply goes to the new order, and is written back although nothing of it is left. -/
theorem enrich_race_anew :
    let g := answering ⟨.null, 1, 2⟩
    let s := (({} : Replica).accept (.placing ⟨1, 0⟩)).1.store
    let anew := StoreWrite.upsert "a" fun o => { o with bookName := "F2" }
    ∃ e : Ending, (∀ r : Replica, r.store = s →
        (Step.lookup "a").amid g [[.delete "a"], [anew, .advance ⟨7, 0⟩], [.delete "a"]] r =
          (r.ended e, .error (.enriched e.outcome))) ∧
      e.outcome = .ok .enriched ∧ e.delta.isSome = true ∧
      ∃ (merged : Store) (o : Order), merged.get? "a" = some o ∧ o.bookName = "F2" ∧ o.onChainData.isSome = true ∧
        e.store = merged.after [.delete "a"] := by
  intro g s anew
  have hends : Answer.enriched? ((Step.lookup "a").amid g [[.delete "a"], [anew, .advance ⟨7, 0⟩], [.delete "a"]]
      { store := s }).2 = some .enriched := by decide +kernel
  have hname : ((s.after ([.delete "a"] ++ [anew, .advance ⟨7, 0⟩])).get? "a").map Order.bookName = some "F2" := by
    decide +kernel
  have hg : g.Quiet := answering_quiet _
  clear_value g s anew
  obtain ⟨e, hrun, -, -, hmerged⟩ := enrich_race hg s "a" [.delete "a"] [anew, .advance ⟨7, 0⟩] [.delete "a"]
  rw [hrun { store := s } rfl] at hends
  have henriched : e.outcome = .ok .enriched := eq_ok_of_toOption hends
  obtain ⟨-, stands, -, data, merged, -, -, -, hstands, hget, -, -, -, hstore, hdelta⟩ := hmerged henriched
  rw [hstands] at hname
  exact ⟨e, hrun, henriched, by rw [hdelta]; rfl, merged, _, hget, Option.some.inj hname, rfl, hstore⟩

end ReplicatedOrders
