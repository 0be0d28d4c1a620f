/-
The tally: counters and totals add up over every run.

Counters are kept in several places and go up on different exits. Every entry has one verdict, and a table (`Growth.of`)
says what each verdict adds to which of them; so what a run adds is a sum of rows of the table, and every law that holds
of the rows and is kept by sums holds of the run.
- `Growth.balanced_of`, `Growth.Balanced.add`: the laws between the numbers.
- `Store.within_step`: what one entry does to the number of orders, and of complete orders.
- `Replica.process_grown`, `Replica.Grown.trans`: one entry, and one run after the other.
- `processEach_grown`: the laws for a run, and what leaves the statistics alone.
-/
import ReplicatedOrders.Proofs.Listing
import ReplicatedOrders.Proofs.Verdicts

namespace ReplicatedOrders

/-! ## What verdicts add -/

/-- how much the counters and the totals grow -/
structure Growth where
  received : Nat := 0
  malformed : Nat := 0
  stale : Nat := 0
  /-- accepted entries that ask for nothing -/
  skipped : Nat := 0
  /-- accepted deletions, and those of them that found an order -/
  deletes : Nat := 0
  removals : Nat := 0
  upserts : Nat := 0
  /-- successful attempts, as the counters have them and as the totals do -/
  enriched : Nat := 0
  enrichments : Nat := 0
  failed : Nat := 0

namespace Growth

instance : Add Growth where
  add m n :=
    { received := m.received + n.received
      malformed := m.malformed + n.malformed
      stale := m.stale + n.stale
      skipped := m.skipped + n.skipped
      deletes := m.deletes + n.deletes
      removals := m.removals + n.removals
      upserts := m.upserts + n.upserts
      enriched := m.enriched + n.enriched
      enrichments := m.enrichments + n.enrichments
      failed := m.failed + n.failed }

/-- what one verdict adds -/
def of : Verdict → Growth
  | .stale => { received := 1, stale := 1 }
  | .malformed => { received := 1, malformed := 1 }
  | .skipped => { received := 1, skipped := 1 }
  | .deleted _ existed => { received := 1, deletes := 1, removals := existed.toNat }
  | .upserted _ .complete => { received := 1, upserts := 1 }
  | .upserted _ .failed => { received := 1, upserts := 1, failed := 1 }
  | .upserted _ (.found _) => { received := 1, upserts := 1, enriched := 1, enrichments := 1 }

/-- the laws between the numbers -/
structure Balanced (n : Growth) : Prop where
  entries : n.received = n.malformed + n.stale + n.deletes + n.skipped + n.upserts
  removals : n.removals ≤ n.deletes
  enrichments : n.enriched = n.enrichments
  attempts : n.enriched + n.failed ≤ n.upserts

theorem balanced_of (v : Verdict) : (of v).Balanced := by
  rcases v with _ | _ | _ | ⟨hash, existed⟩ | ⟨hash, _ | _ | data⟩
  case deleted => exact ⟨rfl, Bool.toNat_le existed, rfl, Nat.le_refl _⟩
  all_goals exact ⟨rfl, Nat.le_refl _, rfl, by simp [of]⟩

theorem Balanced.add {m n : Growth} (hm : m.Balanced) (hn : n.Balanced) : (m + n).Balanced where
  entries := by
    have hm := hm.entries
    have hn := hn.entries
    show m.received + n.received = m.malformed + n.malformed + (m.stale + n.stale) + (m.deletes + n.deletes) +
      (m.skipped + n.skipped) + (m.upserts + n.upserts)
    omega
  removals := Nat.add_le_add hm.removals hn.removals
  enrichments := congrArg₂ (· + ·) hm.enrichments hn.enrichments
  attempts := by
    have hm := hm.attempts
    have hn := hn.attempts
    show m.enriched + n.enriched + (m.failed + n.failed) ≤ m.upserts + n.upserts
    omega

end Growth

/-! ## What entries do to the number of orders -/

namespace Store

/-- a stale entry, one that is no update, and one that asks for nothing move the cursor at most -/
theorem step_idle {s : Store} {e : LogEntry}
    (h : ¬ s.cursor < e.id ∨ e.action? = none ∨ ∃ hash, e.action? = some (.skip hash)) (g : Registry) :
    s.step g e = { s with cursor := max s.cursor e.id } := by
  by_cases hfresh : s.cursor < e.id
  · rw [EntryId.max_eq_right hfresh]
    rcases h.resolve_left (not_not_intro hfresh) with ha | ⟨hash, ha⟩
    · simp only [step, accept, ha, advance_fresh hfresh]
    · simp only [step, accept, ha, apply, advance_fresh hfresh]
  · rw [step_stale hfresh, EntryId.max_eq_left hfresh]

/-- an accepted entry changes a count by the order of its hash, before and after -/
theorem count_of_accepted {s : Store} {e : LogEntry} {a : Action} (h : s.cursor < e.id) (ha : e.action? = some a)
    (g : Registry) (p : Order → Bool) :
    (s.step g e).count p + (s.get? a.hash).toList.countP p =
      s.count p + (a.settle g a.hash (s.get? a.hash)).toList.countP p := by
  have hstep : ∀ key, (s.step g e).get? key = a.settle g key (s.get? key) := by
    intro key
    rw [get?_step h, ha, Option.elim_some]
  have hothers : ∀ key, key ≠ a.hash → (s.step g e).get? key = s.get? key := by
    intro key hkey
    rw [hstep, Action.settle_of_ne hkey.symm]
  rw [count_of_update hothers p, hstep]

/-- an attempt makes an order complete only if it finds data -/
theorem complete_settled_le (g : Registry) (bookName : Option String) (data : Json.Value) (hash : String)
    (old : Option Order) :
    let o := rewrite bookName data (old.getD { hash })
    [g.settled o].countP Order.isEnriched ≤
      old.toList.countP Order.isEnriched + (Growth.of (.upserted hash (g.finding o))).enrichments := by
  intro o
  have hold : o.isEnriched = true → old.toList.countP Order.isEnriched = 1 := by
    intro he
    cases old with
    | none => cases he
    | some old => exact List.countP_singleton.trans (if_pos he)
  rw [List.countP_singleton]
  unfold Registry.settled
  cases hfinding : g.finding o with
  | found data => dsimp only; split <;> simp [Growth.of]
  | complete | failed =>
    dsimp only
    split
    · next he => rw [hold he]; exact Nat.le_add_right _ _
    · exact Nat.zero_le _

/-- from `s` to `t` the number of orders, and that of complete orders, change as a growth allows -/
structure Within (s t : Store) (n : Growth) : Prop where
  orders : t.count (fun _ => true) + n.removals ≤ s.count (fun _ => true) + n.upserts
  complete : t.count Order.isEnriched ≤ s.count Order.isEnriched + n.enrichments

namespace Within

variable {s t u : Store} {m n : Growth}

theorem trans (h : s.Within t m) (h' : t.Within u n) : s.Within u (m + n) where
  orders := by
    have h := h.orders
    have h' := h'.orders
    show _ + (m.removals + n.removals) ≤ _ + (m.upserts + n.upserts)
    omega
  complete := by
    have h := h.complete
    have h' := h'.complete
    show _ ≤ _ + (m.enrichments + n.enrichments)
    omega

end Within

section

variable {s : Store} {e : LogEntry} (h : s.cursor < e.id) (g : Registry)
include h

/-- an order goes if it was there -/
theorem within_delete {hash : String} (ha : e.action? = some (.delete hash)) :
    s.Within (s.step g e) (.of (.deleted hash (s.get? hash).isSome)) := by
  have hcount := count_of_accepted h ha g
  have hgone : Action.settle g hash (.delete hash) (s.get? hash) = none := if_pos rfl
  simp only [Action.hash, hgone, Option.toList_none, List.countP_nil, Nat.add_zero] at hcount
  have hone : (s.get? hash).toList.countP (fun _ => true) = (s.get? hash).isSome.toNat := by
    cases s.get? hash <;> rfl
  refine ⟨?_, ?_⟩
  · show _ + (s.get? hash).isSome.toNat ≤ _
    rw [← hone, hcount]
    exact Nat.le_add_right _ _
  · rw [← hcount]
    exact (Nat.le_add_right _ _).trans (Nat.le_add_right _ _)

/-- an order comes in if it was not there, and it is complete if it was or if data was found -/
theorem within_upsert {hash : String} {bookName : Option String} {data : Json.Value}
    (ha : e.action? = some (.upsert hash bookName data)) :
    let o := rewrite bookName data ((s.get? hash).getD { hash })
    s.Within (s.step g e) (.of (.upserted hash (g.finding o))) := by
  intro o
  have hcount := count_of_accepted h ha g
  have hstands : Action.settle g hash (.upsert hash bookName data) (s.get? hash) = some (g.settled o) := by
    simp only [Action.settle, Action.on, if_true, Option.map_some, o]
  simp only [Action.hash, hstands, Option.toList_some] at hcount
  have hrow : ∀ f, (Growth.of (.upserted hash f)).removals = 0 ∧ (Growth.of (.upserted hash f)).upserts = 1 := by
    intro f
    cases f <;> exact ⟨rfl, rfl⟩
  have hall := hcount fun _ => true
  have hcomplete := hcount Order.isEnriched
  have hle : [g.settled o].countP Order.isEnriched ≤ (s.get? hash).toList.countP Order.isEnriched +
      (Growth.of (.upserted hash (g.finding o))).enrichments := complete_settled_le g bookName data hash (s.get? hash)
  constructor
  · rw [(hrow _).1, (hrow _).2]
    rw [List.countP_singleton, if_pos rfl] at hall
    omega
  · omega

end

/-- **One entry and the number of orders:** at most one comes in with an upsert, one goes with a removal, and one
becomes complete with data that was found. -/
theorem within_step (g : Registry) (s : Store) (e : LogEntry) : s.Within (s.step g e) (.of (s.verdict g e)) := by
  by_cases h : s.cursor < e.id
  · cases ha : e.action? with
    | none =>
      rw [verdict_malformed h ha, step_idle (Or.inr (Or.inl ha))]
      exact ⟨Nat.le_refl _, Nat.le_refl _⟩
    | some a =>
      rw [verdict_accepted h ha]
      cases a with
      | skip hash =>
        rw [step_idle (Or.inr (Or.inr ⟨hash, ha⟩))]
        exact ⟨Nat.le_refl _, Nat.le_refl _⟩
      | delete hash => exact within_delete h g ha
      | upsert hash bookName data => exact within_upsert h g ha
  · rw [verdict_stale h, step_stale h]
    exact ⟨Nat.le_refl _, Nat.le_refl _⟩

end Store

/-! ## Runs -/

/-- from `r` to `r'` the counters, the totals and the update stream grow by so much -/
structure Replica.Grown (r r' : Replica) (n : Growth) : Prop where
  counters :
    r'.counters =
      { r.counters with
        received := r.counters.received + n.received
        malformed := r.counters.malformed + n.malformed
        stale := r.counters.stale + n.stale
        deletes := r.counters.deletes + n.deletes
        enriched := r.counters.enriched + n.enriched
        failed := r.counters.failed + n.failed }
  totals :
    r'.store.totals =
      { upserts := r.store.totals.upserts + n.upserts
        deletes := r.store.totals.deletes + n.removals
        enrichments := r.store.totals.enrichments + n.enrichments }
  /-- every success is written back once: a line more, or a fault less -/
  stream :
    ∃ sent lost, r'.updates.lines.length = r.updates.lines.length + sent ∧
      r.updates.armed = r'.updates.armed + lost ∧ n.enrichments = sent + lost

namespace Replica.Grown

variable {r r' r'' : Replica} {m n : Growth}

theorem refl (r : Replica) : r.Grown r {} := ⟨rfl, rfl, 0, 0, rfl, rfl, rfl⟩

theorem trans (h : r.Grown r' m) (h' : r'.Grown r'' n) : r.Grown r'' (m + n) where
  counters := by
    rw [h'.counters, h.counters]
    simp only [Nat.add_assoc]
    rfl
  totals := by
    rw [h'.totals, h.totals]
    simp only [Nat.add_assoc]
    rfl
  stream := by
    obtain ⟨sent, lost, hsent, hlost, hsum⟩ := h.stream
    obtain ⟨sent', lost', hsent', hlost', hsum'⟩ := h'.stream
    refine ⟨sent + sent', lost + lost', by omega, by omega, ?_⟩
    show m.enrichments + n.enrichments = _
    omega

end Replica.Grown

/-- one entry adds the row of its verdict -/
theorem Replica.process_grown {g : Registry} (hg : g.Quiet) (r : Replica) (e : LogEntry) :
    r.Grown (r.process g e) (.of (r.store.verdict g e)) := by
  obtain ⟨hcounters, htotals, hupdates⟩ := process_verdict hg r e
  generalize r.store.verdict g e = v at hcounters htotals hupdates
  refine ⟨hcounters.trans ?_, htotals.trans ?_, ?_⟩
  · rcases v with _ | _ | _ | _ | ⟨_, _ | _ | _⟩ <;> rfl
  · rcases v with _ | _ | _ | ⟨_, _ | _⟩ | ⟨_, _ | _ | _⟩ <;> rfl
  · rw [hupdates]
    rcases v with _ | _ | _ | _ | ⟨hash, _ | _ | data⟩
    case upserted.found =>
      rcases r.updates.append_armed (some (Delta.text ⟨hash, data⟩)) with ⟨-, hlines, harmed⟩ | ⟨-, hlines, harmed⟩
      · exact ⟨0, 1, congrArg List.length hlines, harmed, rfl⟩
      · exact ⟨1, 0, (congrArg List.length hlines).trans List.length_append, harmed, rfl⟩
    all_goals exact ⟨0, 0, rfl, rfl, rfl⟩

/-- an entry that asks for nothing -/
def LogEntry.isSkip (e : LogEntry) : Bool :=
  match e.action? with
  | some (.skip _) => true
  | _ => false

theorem Store.skipped_verdict (g : Registry) (s : Store) (e : LogEntry) :
    (Growth.of (s.verdict g e)).skipped = if s.cursor < e.id then e.isSkip.toNat else 0 := by
  by_cases h : s.cursor < e.id
  · rw [if_pos h, LogEntry.isSkip]
    cases ha : e.action? with
    | none =>
      rw [verdict_malformed h ha]
      rfl
    | some a =>
      rw [verdict_accepted h ha]
      cases a with
      | delete hash => rfl
      | upsert hash bookName data =>
        rw [Action.verdict]
        cases g.finding _ <;> rfl
      | skip hash => rfl
  · rw [if_neg h, verdict_stale h]
    rfl

/-- what a run adds is a sum of rows -/
theorem Replica.processEach_sum (r : Replica) {steps : List (Registry × LogEntry)} (hq : ∀ p ∈ steps, p.1.Quiet) :
    ∃ n : Growth, r.Grown (r.processEach steps) n ∧ n.Balanced ∧ n.received = steps.length ∧
      n.skipped = (accepted r.store.cursor (steps.map Prod.snd)).countP LogEntry.isSkip ∧
      r.store.Within (r.processEach steps).store n := by
  induction steps using List.reverseRecOn with
  | nil =>
    exact ⟨{}, Grown.refl r, ⟨rfl, Nat.le_refl _, rfl, Nat.le_refl _⟩, rfl, rfl, Nat.le_refl _, Nat.le_refl _⟩
  | append_singleton steps p ih =>
    rw [List.forall_mem_append] at hq
    obtain ⟨n, hgrown, hbalanced, hlength, hskipped, hwithin⟩ := ih hq.1
    have hp : p.1.Quiet := hq.2 p (by simp)
    have hstep := (r.processEach steps).store.within_step p.1 p.2
    have hskip := (r.processEach steps).store.skipped_verdict p.1 p.2
    have hfresh : (r.processEach steps).store.cursor < p.2.id ↔ p.2.IsFresh r.store.cursor (steps.map Prod.snd) := by
      rw [(r.processEach_agree steps hq.1).cursor, cursor_lt_iff_isFresh]
    rw [if_congr hfresh rfl rfl] at hskip
    have hone := process_grown hp (r.processEach steps) p.2
    have hrow := Growth.balanced_of ((r.processEach steps).store.verdict p.1 p.2)
    rw [← process_store hp] at hstep
    rw [processEach_snoc]
    have hreceived : (Growth.of ((r.processEach steps).store.verdict p.1 p.2)).received = 1 := by
      cases (r.processEach steps).store.verdict p.1 p.2 with
      | upserted hash finding => cases finding <;> rfl
      | _ => rfl
    generalize Growth.of ((r.processEach steps).store.verdict p.1 p.2) = m at *
    refine ⟨n + m, hgrown.trans hone, hbalanced.add hrow, ?_, ?_, hwithin.trans hstep⟩
    · rw [List.length_append, ← hlength]
      exact congrArg (n.received + ·) hreceived
    · rw [List.map_append, List.map_singleton, accepted_snoc, List.countP_append, ← hskipped]
      refine congrArg (n.skipped + ·) (hskip.trans ?_)
      split
      · rw [List.countP_singleton]
        cases p.2.isSkip <;> rfl
      · rfl

/-- **Counters and totals add up.** Over any entries, with any replies and any faults of the update stream, the numbers
grow so that: every entry is counted once, as malformed, stale, deletion, skipped or upsert, where the skipped ones are
the accepted entries that ask for nothing; no more orders are removed than deletions counted, and none comes in but by
an upsert; the counter and the total of successful attempts grow alike, by the deltas sent and lost; no more attempts
succeed or fail than there are upserts; and no order becomes complete but by a success. Entries that are stale,
malformed or skipped leave the statistics alone, the cursor aside. -/
theorem processEach_grown (r : Replica) (steps : List (Registry × LogEntry)) (hq : ∀ p ∈ steps, p.1.Quiet) :
    let r' := r.processEach steps
    (∃ n : Growth, r.Grown r' n ∧ n.received = steps.length ∧
      n.skipped = (accepted r.store.cursor (steps.map Prod.snd)).countP LogEntry.isSkip ∧
      n.received = n.malformed + n.stale + n.deletes + n.skipped + n.upserts ∧
      n.removals ≤ n.deletes ∧
      r'.store.stats.orderCount + n.removals ≤ r.store.stats.orderCount + n.upserts ∧
      n.enriched = n.enrichments ∧
      n.enriched + n.failed ≤ n.upserts ∧
      r'.store.stats.enrichedCount ≤ r.store.stats.enrichedCount + n.enrichments) ∧
    ∀ before p after, steps = before ++ p :: after →
      let s := (r.processEach before).store
      ¬ s.cursor < p.2.id ∨ p.2.action? = none ∨ (∃ hash, p.2.action? = some (.skip hash)) →
        (r.processEach (before ++ [p])).store.stats = { s.stats with cursor := max s.cursor p.2.id } := by
  intro r'
  constructor
  · simp only [Store.stats_eq]
    obtain ⟨n, hgrown, hbalanced, hlength, hskipped, hwithin⟩ := r.processEach_sum hq
    exact ⟨n, hgrown, hlength, hskipped, hbalanced.entries, hbalanced.removals, hwithin.orders, hbalanced.enrichments,
      hbalanced.attempts, hwithin.complete⟩
  · intro before p after hsplit s hidle
    have hp : p.1.Quiet := hq p (by simp [hsplit])
    have hstore : (r.processEach (before ++ [p])).store = s.step p.1 p.2 := by
      rw [Replica.processEach_snoc, Replica.process_store hp]
    rw [hstore, Store.step_idle hidle]
    rfl

/-- an append that fails -/
def unheard : Replica := { updates := { appendFaults := [true] } }

/-- A success, an entry without payload, an entry that is stale, one that asks for nothing, the deletion of an unknown
order, an upsert of an order that is complete, and a deletion. -/
def mixed : List (Registry × LogEntry) :=
  [(answering ⟨.text "open", 1, 2⟩, .placing ⟨1, 0⟩), (∅, ⟨⟨2, 0⟩, none⟩), (∅, .placing ⟨2, 0⟩),
    (∅, ⟨⟨3, 0⟩, some "\x7b\"orderHash\":\"a\"\x7d"⟩),
    (∅, ⟨⟨4, 0⟩, some "\x7b\"orderHash\":\"b\",\"deleted\":true\x7d"⟩), (∅, .placing ⟨5, 0⟩),
    (∅, ⟨⟨6, 0⟩, some "\x7b\"orderHash\":\"a\",\"deleted\":true\x7d"⟩)]

/-- Seven entries: one malformed, one stale, two deletions, one skipped, two upserts. The one success is lost on its way
to the stream. -/
theorem processEach_grown_mixed :
    (∀ p ∈ mixed, p.1.Quiet) ∧ ∃ n, unheard.Grown (unheard.processEach mixed) n ∧
      n.received = 7 ∧ n.malformed = 1 ∧ n.stale = 1 ∧ n.deletes = 2 ∧ n.skipped = 1 ∧ n.upserts = 2 ∧
      n.removals = 1 ∧ n.enrichments = 1 ∧ (unheard.processEach mixed).updates.lines = [] := by
  have hq : ∀ p ∈ mixed, p.1.Quiet := by
    simp [mixed, answering_quiet, Registry.quiet_empty]
  obtain ⟨⟨n, hgrown, hreceived, hskipped, hentries, -, -, henriched, -⟩, -⟩ := processEach_grown unheard mixed hq
  obtain ⟨hcounters, htotals, hlines⟩ : (unheard.processEach mixed).counters =
        { received := 7, malformed := 1, stale := 1, deletes := 2, enriched := 1 } ∧
      (unheard.processEach mixed).store.totals = ⟨2, 1, 1⟩ ∧ (unheard.processEach mixed).updates.lines = [] := by
    decide +kernel
  have hone : (accepted unheard.store.cursor (mixed.map Prod.snd)).countP LogEntry.isSkip = 1 := by decide +kernel
  have hc := hgrown.counters
  have ht := hgrown.totals
  rw [hcounters] at hc
  rw [htotals] at ht
  simp only [unheard, Counters.mk.injEq, Totals.mk.injEq, Nat.zero_add] at hc ht
  obtain ⟨-, hmalformed, hstale, hdeletes, -⟩ := hc
  obtain ⟨hupserts, hremovals, henrichments⟩ := ht
  exact ⟨hq, n, hgrown, hreceived, hmalformed.symm, hstale.symm, hdeletes.symm, hskipped.trans hone, hupserts.symm,
    hremovals.symm, henrichments.symm, hlines⟩

end ReplicatedOrders
