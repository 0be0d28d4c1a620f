/-
Rounds: one attempt for every order of the store, in whatever order the hashes are listed.

An attempt looks at the order of its own hash and changes no other, so every order is found in the round as it stood
before. What the round leaves behind is then a sum over the orders, and a sum does not depend on the order of its terms.
Only what is written back comes in the order of the attempts.
- `Replica.enrich_finding`: what one attempt adds to totals, counters and logs.
- `Replica.enrichAll_sum`, `Replica.enrichAll_listed`: what a round adds, as sums over the orders.
- `enrichAll_any_order`: two rounds over the same store.
-/
import ReplicatedOrders.Proofs.Independence
import ReplicatedOrders.Proofs.Listing

namespace ReplicatedOrders

/-! ## One attempt -/

namespace Finding

def isFound : Finding → Bool
  | found _ => true
  | _ => false

def isFailed : Finding → Bool
  | failed => true
  | _ => false

def isComplete : Finding → Bool
  | complete => true
  | _ => false

end Finding

namespace Registry

/-- what an attempt at an order asks the sources: nothing if the order is complete -/
def questions (g : Registry) (o : Order) : List (String × Order) := if o.isEnriched then [] else g.asks o

/-- the verdict on the order of a hash that is only attempted -/
def attempted (g : Registry) (p : String × Order) : Verdict := .upserted p.1 (g.finding p.2)

end Registry

/-- what an attempt adds to the summary of a round -/
def Round.after (n : Round) (f : Finding) : Round :=
  ⟨n.enriched + (if f.isFound then 1 else 0), n.skipped + (if f.isComplete then 1 else 0),
    n.failed + (if f.isFailed then 1 else 0)⟩

/-- **An attempt adds to everything what its finding says.** -/
theorem Replica.enrich_finding {g : Registry} (hg : g.Quiet) {r : Replica} {hash : String} {o : Order}
    (h : r.store.get? hash = some o) :
    (r.enrich g hash).1.store.totals =
        { r.store.totals with enrichments := r.store.totals.enrichments + (if (g.finding o).isFound then 1 else 0) } ∧
      (r.enrich g hash).1.counters =
        { r.counters with
            enriched := r.counters.enriched + (if (g.finding o).isFound then 1 else 0)
            failed := r.counters.failed + (if (g.finding o).isFailed then 1 else 0) } ∧
      (r.enrich g hash).1.asked = g.questions o ++ r.asked ∧
      (r.enrich g hash).1.updates = r.updates.after (g.attempted (hash, o)) ∧
      ∀ n : Round, n.add (r.enrich g hash).2 = n.after (g.finding o) := by
  have hattempted := enrich_attempted hg r hash
  unfold Registry.questions Registry.attempted
  generalize r.enrich g hash = p at hattempted ⊢
  cases hattempted with
  | missing hnone =>
    rw [h] at hnone
    cases hnone
  | complete ho he =>
    cases h.symm.trans ho
    rw [if_pos he, Registry.finding_complete he]
    exact ⟨rfl, rfl, rfl, rfl, fun _ => rfl⟩
  | failed ho he hr =>
    cases h.symm.trans ho
    rw [he, Registry.finding_failed he hr]
    exact ⟨rfl, rfl, rfl, rfl, fun _ => rfl⟩
  | merged ho he hr =>
    cases h.symm.trans ho
    rw [he, Registry.finding_found he hr]
    exact ⟨Store.totals_merge ho _, rfl, rfl, rfl, fun _ => rfl⟩

/-! ## A round -/

/-- orders under their hashes, each hash once, as they stand in a store -/
structure Store.Stands (s : Store) (ps : List (String × Order)) : Prop where
  distinct : (ps.map Prod.fst).Nodup
  get? : ∀ p ∈ ps, s.get? p.1 = some p.2

/-- a property of the finding on an order -/
def Registry.finds (g : Registry) (f : Finding → Bool) (p : String × Order) : Bool := f (g.finding p.2)

theorem Replica.enrichAll_snoc (g : Registry) (r : Replica) (hashes : List String) (hash : String) :
    r.enrichAll g (hashes ++ [hash]) =
      (((r.enrichAll g hashes).1.enrich g hash).1,
        (r.enrichAll g hashes).2.add ((r.enrichAll g hashes).1.enrich g hash).2) := by
  rw [enrichAll, List.foldl_append]
  rfl

/-- **A round adds to everything a sum over the orders,** each as it stood before the round. -/
theorem Replica.enrichAll_sum {g : Registry} (hg : g.Quiet) {r : Replica} {ps : List (String × Order)}
    (h : r.store.Stands ps) :
    let p := r.enrichAll g (ps.map Prod.fst)
    (∀ key, p.1.store.get? key =
        if key ∈ ps.map Prod.fst then (r.store.get? key).map g.settled else r.store.get? key) ∧
      p.1.store.cursor = r.store.cursor ∧
      p.1.store.totals =
        { r.store.totals with enrichments := r.store.totals.enrichments + ps.countP (g.finds Finding.isFound) } ∧
      p.1.counters =
        { r.counters with
            enriched := r.counters.enriched + ps.countP (g.finds Finding.isFound)
            failed := r.counters.failed + ps.countP (g.finds Finding.isFailed) } ∧
      p.1.asked = (ps.reverse.flatMap fun q => g.questions q.2) ++ r.asked ∧
      p.1.updates = (ps.map g.attempted).foldl Log.after r.updates ∧
      p.2 = ⟨ps.countP (g.finds Finding.isFound), ps.countP (g.finds Finding.isComplete),
        ps.countP (g.finds Finding.isFailed)⟩ := by
  induction ps using List.reverseRecOn with
  | nil => exact ⟨fun _ => by simp [enrichAll], rfl, rfl, rfl, rfl, rfl, rfl⟩
  | append_singleton ps q ih =>
    have hdistinct := h.distinct
    rw [List.map_append, List.nodup_append] at hdistinct
    have hnot : q.1 ∉ ps.map Prod.fst := fun hmem => hdistinct.2.2 _ hmem q.1 (by simp) rfl
    obtain ⟨hget, hcursor, htotals, hcounters, hasked, hupdates, hround⟩ :=
      ih ⟨hdistinct.1, fun p hp => h.get? p (List.mem_append_left _ hp)⟩
    -- the order of the last hash stands as it did before the round
    have hstands : (r.enrichAll g (ps.map Prod.fst)).1.store.get? q.1 = some q.2 := by
      rw [hget, if_neg hnot]
      exact h.get? q (by simp)
    obtain ⟨htotals', hcounters', hasked', hupdates', hround'⟩ := enrich_finding hg hstands
    have hstore' := enrich_store hg (r.enrichAll g (ps.map Prod.fst)).1 q.1
    have hcount : ∀ f, (ps ++ [q]).countP (g.finds f) =
        ps.countP (g.finds f) + if f (g.finding q.2) then 1 else 0 := by
      intro f
      rw [List.countP_append, List.countP_singleton]
      rfl
    simp only [List.map_append, List.map_cons, List.map_nil, enrichAll_snoc, hcount]
    refine ⟨fun key => ?_, ?_, ?_, ?_, ?_, ?_, ?_⟩
    · rw [hstore', Store.get?_attempt, hget]
      by_cases hk : q.1 = key
      · subst hk
        simp only [hnot, List.mem_append, List.mem_singleton, or_true, if_true, if_false]
      · simp only [if_neg hk, List.mem_append, List.mem_singleton, Ne.symm hk, or_false]
    · rw [hstore', Store.cursor_attempt, hcursor]
    · simp only [htotals', htotals, Nat.add_assoc]
    · simp only [hcounters', hcounters, Nat.add_assoc]
    · rw [hasked', hasked, List.reverse_append, List.reverse_singleton, List.singleton_append, List.flatMap_cons,
        List.append_assoc]
    · rw [hupdates', hupdates, List.foldl_append]
      rfl
    · rw [hround', hround, Round.after]

/-! ## Listings -/

namespace Store

/-- hashes that are listed in some order, with their orders -/
def underHashes (s : Store) (hashes : List String) : List (String × Order) :=
  hashes.filterMap fun hash => (s.get? hash).map (hash, ·)

variable {s : Store} {hashes : List String}

theorem underHashes_hashes (s : Store) : s.underHashes s.hashes = s.orders.toList := by
  have hstands : ∀ p ∈ s.orders.toList, (s.get? p.1).map (p.1, ·) = some p := by
    intro p hp
    rw [get?, Std.ExtTreeMap.mem_toList_iff_getElem?_eq_some.1 hp]
    rfl
  rw [underHashes, hashes, ← Std.ExtTreeMap.map_fst_toList_eq_keys, List.filterMap_map]
  exact (List.filterMap_congr hstands).trans List.filterMap_some

theorem underHashes_perm (h : hashes.Perm s.hashes) : (s.underHashes hashes).Perm s.orders.toList := by
  rw [← underHashes_hashes]
  exact h.filterMap _

theorem map_fst_underHashes (h : hashes.Perm s.hashes) : (s.underHashes hashes).map Prod.fst = hashes := by
  have hlisted : ∀ hash ∈ hashes, ((s.get? hash).map (hash, ·)).map Prod.fst = some hash := by
    intro hash hmem
    obtain ⟨o, ho⟩ := Option.isSome_iff_exists.1 (mem_hashes.1 (h.mem_iff.1 hmem))
    rw [ho]
    rfl
  rw [underHashes, List.map_filterMap]
  exact (List.filterMap_congr hlisted).trans List.filterMap_some

theorem stands_underHashes (h : hashes.Perm s.hashes) : s.Stands (s.underHashes hashes) := by
  refine ⟨?_, fun p hp => ?_⟩
  · rw [map_fst_underHashes h, h.nodup_iff]
    exact s.hashes_rising.imp ne_of_lt
  · obtain ⟨hash, -, hp⟩ := List.mem_filterMap.1 hp
    obtain ⟨o, ho, rfl⟩ := Option.map_eq_some_iff.1 hp
    exact ho

end Store

/-! ## Any order -/

/-- the orders whose finding has a property are counted from any listing -/
theorem Store.countP_finds {s : Store} {ps : List (String × Order)} (h : ps.Perm s.orders.toList) (g : Registry)
    (f : Finding → Bool) : ps.countP (g.finds f) = s.count fun o => f (g.finding o) := by
  rw [h.countP_eq, count, toList_eq, List.countP_map]
  rfl

/-- every finding is of one kind -/
theorem Store.count_findings (g : Registry) (s : Store) :
    (s.count fun o => (g.finding o).isFound) + (s.count fun o => (g.finding o).isComplete) +
      (s.count fun o => (g.finding o).isFailed) = s.size := by
  rw [size_eq_count, count, count, count, count, List.countP_true]
  induction s.toList with
  | nil => rfl
  | cons o os ih =>
    rw [List.countP_cons, List.countP_cons, List.countP_cons, List.length_cons]
    have hone : (if (g.finding o).isFound then 1 else 0) + (if (g.finding o).isComplete then 1 else 0) +
        (if (g.finding o).isFailed then 1 else 0) = 1 := by
      cases g.finding o <;> rfl
    omega

/-- **A round over any listing adds a sum over the orders of the store.** Only what the sources are asked and what is
written back come in the order of the listing. -/
theorem Replica.enrichAll_listed {g : Registry} (hg : g.Quiet) {r : Replica} {hashes : List String}
    (h : hashes.Perm r.store.hashes) :
    let p := r.enrichAll g hashes
    let number (f : Finding → Bool) := r.store.count fun o => f (g.finding o)
    (∀ key, p.1.store.get? key = (r.store.get? key).map g.settled) ∧
      p.1.store.cursor = r.store.cursor ∧
      p.1.store.totals =
        { r.store.totals with enrichments := r.store.totals.enrichments + number Finding.isFound } ∧
      p.1.counters =
        { r.counters with
            enriched := r.counters.enriched + number Finding.isFound
            failed := r.counters.failed + number Finding.isFailed } ∧
      p.1.asked.Perm (r.store.toList.flatMap g.questions ++ r.asked) ∧
      p.1.updates = ((r.store.underHashes hashes).map g.attempted).foldl Log.after r.updates ∧
      p.2 = ⟨number Finding.isFound, number Finding.isComplete, number Finding.isFailed⟩ := by
  intro p number
  have hps := Store.underHashes_perm h
  have hsum := enrichAll_sum hg (Store.stands_underHashes h)
  rw [Store.map_fst_underHashes h] at hsum
  simp only [Store.countP_finds hps] at hsum
  obtain ⟨hget, hcursor, htotals, hcounters, hasked, hupdates, hround⟩ := hsum
  refine ⟨fun key => ?_, hcursor, htotals, hcounters, ?_, hupdates, hround⟩
  · rw [hget]
    simp only [h.mem_iff, Store.mem_hashes]
    cases r.store.get? key <;> rfl
  · rw [hasked, Store.toList_eq, List.flatMap_map]
    exact (((List.reverse_perm _).trans hps).flatMap_right _).append_right _

/-- where no armed fault is spent, a round writes back a delta for every order that it completes -/
theorem Replica.payloads_enrichAll {g : Registry} (hg : g.Quiet) {r : Replica} {hashes : List String}
    (h : hashes.Perm r.store.hashes) (harmed : (r.enrichAll g hashes).1.updates.armed = r.updates.armed) :
    (r.enrichAll g hashes).1.updates.payloads =
      r.updates.payloads ++
        (((r.store.underHashes hashes).map g.attempted).filterMap Verdict.delta?).map fun d => some d.text := by
  obtain ⟨-, -, -, -, -, hupdates, -⟩ := enrichAll_listed hg h
  rw [hupdates, Log.foldl_after] at harmed ⊢
  exact Log.payloads_announce harmed

/-- **A round does not depend on the order in which it goes through the store.** Two rounds leave the same store, the
same counters and the same summary, which counts every order once. Every order is attempted once, as it stood before
the round, and its source is asked at most that once. No order changes but by the on-chain data that was found for it,
and the summary counts these orders as enriched. All this holds whatever appends fail. Where none fails, which is to say
that no armed fault is spent, both rounds write back the same deltas, maybe in another order. -/
theorem enrichAll_any_order {g : Registry} (hg : g.Quiet) (r : Replica) {hashes hashes' : List String}
    (h : hashes.Perm r.store.hashes) (h' : hashes'.Perm r.store.hashes) :
    let one := r.enrichAll g hashes
    let other := r.enrichAll g hashes'
    (one.1.store = other.1.store ∧ one.1.counters = other.1.counters ∧ one.2 = other.2) ∧
      one.2.enriched + one.2.skipped + one.2.failed = r.store.size ∧
      ((∀ hash, hashes.count hash = if (r.store.get? hash).isSome then 1 else 0) ∧
        one.1.asked.Perm (r.store.toList.flatMap g.questions ++ r.asked)) ∧
      (one.1.store.cursor = r.store.cursor ∧
        (∀ hash, one.1.store.get? hash = (r.store.get? hash).map fun o =>
          match g.finding o with
          | .found data => { o with onChainData := some data }
          | _ => o) ∧
        one.2.enriched = r.store.count fun o => (g.finding o).isFound) ∧
      (one.1.updates.armed = r.updates.armed → other.1.updates.armed = r.updates.armed →
        ∃ sent sent' : List Delta, sent.Perm sent' ∧
          one.1.updates.payloads = r.updates.payloads ++ sent.map (fun d => some d.text) ∧
          other.1.updates.payloads = r.updates.payloads ++ sent'.map fun d => some d.text) := by
  intro one other
  obtain ⟨hget, hcursor, htotals, hcounters, hasked, -, hround⟩ := Replica.enrichAll_listed hg h
  obtain ⟨hget', hcursor', htotals', hcounters', -, -, hround'⟩ := Replica.enrichAll_listed hg h'
  have hstore : one.1.store = other.1.store := by
    have horders : one.1.store.orders = other.1.store.orders :=
      Std.ExtTreeMap.ext_getElem? fun key => (hget key).trans (hget' key).symm
    have hcursors := hcursor.trans hcursor'.symm
    have htotals := htotals.trans htotals'.symm
    exact Store.mk.injEq .. ▸ ⟨horders, hcursors, htotals⟩
  refine ⟨⟨hstore, hcounters.trans hcounters'.symm, hround.trans hround'.symm⟩, ?_, ⟨fun hash => ?_, hasked⟩,
    ⟨hcursor, hget, ?_⟩, fun harmed harmed' => ?_⟩
  · rw [hround]
    exact r.store.count_findings g
  · have hnodup : hashes.Nodup := h.nodup_iff.2 (r.store.hashes_rising.imp ne_of_lt)
    simp only [hnodup.count, h.mem_iff, Store.mem_hashes]
  · rw [hround]
  · have hlistings := (Store.underHashes_perm h).trans (Store.underHashes_perm h').symm
    exact ⟨_, _, (hlistings.map _).filterMap _, Replica.payloads_enrichAll hg h harmed,
      Replica.payloads_enrichAll hg h' harmed'⟩

/-- a replica with two orders of `F1` and one of a family that has no source -/
def Replica.stocked : Replica :=
  { store := [("a", "F1"), ("b", "F1"), ("c", "F2")].foldl
      (fun s (hash, bookName) => (s.upsert hash fun o => { o with bookName, offChainData := .text "x" }).1) {} }

/-- Forth and back, two orders are enriched and one fails, and the deltas are sent in another order. -/
theorem enrichAll_any_order_back :
    let g := answering ⟨.text "open", 1, 2⟩
    let forth := ["a", "b", "c"]
    let back := ["c", "b", "a"]
    forth.Perm Replica.stocked.store.hashes ∧ back.Perm Replica.stocked.store.hashes ∧
      (Replica.stocked.enrichAll g forth).1.store = (Replica.stocked.enrichAll g back).1.store ∧
      (Replica.stocked.enrichAll g forth).2 = ⟨2, 0, 1⟩ ∧ (Replica.stocked.enrichAll g back).2 = ⟨2, 0, 1⟩ ∧
      (Replica.stocked.enrichAll g forth).1.updates.payloads.Perm
        (Replica.stocked.enrichAll g back).1.updates.payloads ∧
      (Replica.stocked.enrichAll g forth).1.updates.payloads ≠
        (Replica.stocked.enrichAll g back).1.updates.payloads := by
  intro g forth back
  have hforth : forth.Perm Replica.stocked.store.hashes := by decide +kernel
  have hback : back.Perm Replica.stocked.store.hashes := by decide +kernel
  have hround : (Replica.stocked.enrichAll g forth).2 = ⟨2, 0, 1⟩ := by decide +kernel
  obtain ⟨⟨hstore, -, hsame⟩, -, -, -, hsent⟩ := enrichAll_any_order (answering_quiet _) Replica.stocked hforth hback
  obtain ⟨hsafe, hsafe', hne⟩ : (Replica.stocked.enrichAll g forth).1.updates.armed = 0 ∧
      (Replica.stocked.enrichAll g back).1.updates.armed = 0 ∧
      (Replica.stocked.enrichAll g forth).1.updates.payloads ≠
        (Replica.stocked.enrichAll g back).1.updates.payloads := by decide +kernel
  obtain ⟨sent, sent', hperm, hsent, hsent'⟩ := hsent hsafe hsafe'
  refine ⟨hforth, hback, hstore, hround, hsame ▸ hround, ?_, hne⟩
  rw [hsent, hsent']
  exact (hperm.map _).append_left _

end ReplicatedOrders
