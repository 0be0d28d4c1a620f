/-
Lifetimes: how often an order is enriched between two deletions of it.

A sequence of calls on one replica is played move by move: sections of entries, and attempts. Once on-chain data says
something about an order, only a deletion of the order takes it away again: an update keeps it, and an attempt finds
the order complete and does nothing. A reply that says nothing about an order is merged, counted and written back like
any other, but leaves the order incomplete.
- `Replica.play_course`: the calls do what their moves do one after the other.
- `Replica.Complete.move`: every move but a deletion of the order keeps it complete.
- `Replica.telling_deltas_length`: a lifetime has at most one telling delta.
- `Replica.lines_play`: what the moves append to the update stream.
- `enriched_once`: the three together, for all calls.
-/
import ReplicatedOrders.Proofs.Attempt

namespace ReplicatedOrders

/-! ## Calls and moves -/

/-- one call on a replica, with the sources that are registered at its time -/
inductive Call where
  | process (g : Registry) (e : LogEntry)
  | enrich (g : Registry) (hash : String)
  | enrichAll (g : Registry) (hashes : List String)

/-- one thing that a call does: the section of an entry, or an attempt -/
inductive Move where
  | entry (e : LogEntry)
  | attempt (g : Registry) (hash : String)

namespace Call

def sources : Call → Registry
  | process g _ => g
  | enrich g _ => g
  | enrichAll g _ => g

def run (r : Replica) : Call → Replica
  | process g e => r.process g e
  | enrich g hash => (r.enrich g hash).1
  | enrichAll g hashes => (r.enrichAll g hashes).1

/-- the moves of a call -/
def moves (r : Replica) : Call → List Move
  | process g e => .entry e :: (r.accept e).2.toList.map (.attempt g)
  | enrich g hash => [.attempt g hash]
  | enrichAll g hashes => hashes.map (.attempt g)

end Call

namespace Move

def run (r : Replica) : Move → Replica
  | .entry e => (r.accept e).1
  | .attempt g hash => (r.enrich g hash).1

/-- no source writes to the store during the move -/
def Quiet : Move → Prop
  | .entry _ => True
  | .attempt g _ => g.Quiet

/-- the move is the accepted deletion of an order -/
def Deletes (hash : String) (r : Replica) : Move → Prop
  | .entry e => r.store.cursor < e.id ∧ e.action? = some (.delete hash)
  | .attempt _ _ => False

/-- what the move writes back to the update stream: the on-chain data that a successful attempt left -/
def delta? (r : Replica) : Move → Option Delta
  | .entry _ => none
  | .attempt g hash =>
    match r.enrich g hash with
    | (r', .ok .enriched) => ((r'.store.get? hash).bind Order.onChainData).map fun data => ⟨hash, data⟩
    | _ => none

end Move

/-- the delta says something about the order -/
def Delta.tells (hash : String) (d : Delta) : Bool := d.hash = hash && !d.data.orderInfo.isNull

namespace Replica

/-- moves one after the other -/
def play (r : Replica) (moves : List Move) : Replica := moves.foldl Move.run r

/-- calls one after the other -/
def call (r : Replica) (calls : List Call) : Replica := calls.foldl Call.run r

/-- the moves of calls one after the other -/
def course (r : Replica) : List Call → List Move
  | [] => []
  | c :: cs => c.moves r ++ course (c.run r) cs

/-- the deltas of moves one after the other -/
def deltas (r : Replica) : List Move → List Delta
  | [] => []
  | m :: ms => (m.delta? r).toList ++ deltas (m.run r) ms

/-- no move deletes the order -/
def Survives (hash : String) (r : Replica) : List Move → Prop
  | [] => True
  | m :: ms => ¬ m.Deletes hash r ∧ Survives hash (m.run r) ms

theorem play_append (r : Replica) (ms ms' : List Move) : r.play (ms ++ ms') = (r.play ms).play ms' :=
  List.foldl_append

theorem survives_append (hash : String) (r : Replica) (ms ms' : List Move) :
    r.Survives hash (ms ++ ms') ↔ r.Survives hash ms ∧ (r.play ms).Survives hash ms' := by
  induction ms generalizing r with
  | nil => simp [Survives, play]
  | cons m ms ih => rw [List.cons_append, Survives, ih, Survives, and_assoc]; rfl

end Replica

/-! ## Calls are played by their moves -/

theorem Replica.enrichAll_fst (g : Registry) (r : Replica) (hashes : List String) :
    (r.enrichAll g hashes).1 = r.play (hashes.map (.attempt g)) := by
  have hround : ∀ n : Round,
      (hashes.foldl (fun (p : Replica × Round) hash => ((p.1.enrich g hash).1, p.2.add (p.1.enrich g hash).2))
        (r, n)).1 = r.play (hashes.map (.attempt g)) := by
    induction hashes generalizing r with
    | nil => intro n; rfl
    | cons hash hashes ih => intro n; exact ih _ _
  exact hround {}

theorem Call.play_moves (r : Replica) (c : Call) : r.play (c.moves r) = c.run r := by
  cases c with
  | process g e =>
    simp only [Call.moves, Call.run, Replica.process]
    split
    · next heq => simp only [heq]; rw [Replica.play, List.foldl_cons, Move.run, heq]; rfl
    · next heq => simp only [heq]; rw [Replica.play, List.foldl_cons, Move.run, heq]; rfl
  | enrich g hash => rfl
  | enrichAll g hashes => exact (Replica.enrichAll_fst g r hashes).symm

/-- The calls do what their moves do one after the other. -/
theorem Replica.play_course (r : Replica) (calls : List Call) : r.play (r.course calls) = r.call calls := by
  induction calls generalizing r with
  | nil => rfl
  | cons c cs ih => rw [course, play_append, Call.play_moves, ih]; rfl

theorem Replica.quiet_course (r : Replica) {calls : List Call} (h : ∀ c ∈ calls, c.sources.Quiet) :
    ∀ m ∈ r.course calls, m.Quiet := by
  induction calls generalizing r with
  | nil => intro m hm; cases hm
  | cons c cs ih =>
    intro m hm
    rcases List.mem_append.1 hm with hm | hm
    · have hc := h c (by simp)
      cases c with
      | process g e =>
        rcases List.mem_cons.1 hm with rfl | hm
        · trivial
        · obtain ⟨hash, -, rfl⟩ := List.mem_map.1 hm
          exact hc
      | enrich g hash =>
        obtain rfl := List.mem_singleton.1 hm
        exact hc
      | enrichAll g hashes =>
        obtain ⟨hash, -, rfl⟩ := List.mem_map.1 hm
        exact hc
    · exact ih _ (fun c' hc' => h c' (List.mem_cons_of_mem _ hc')) m hm

/-! ## Complete orders -/

/-- the order of a hash is there, and on-chain data says something about it -/
def Replica.Complete (hash : String) (r : Replica) : Prop :=
  ∃ o, r.store.get? hash = some o ∧ o.isEnriched = true

namespace Replica.Complete

variable {hash : String} {r : Replica}

/-- **An attempt finds a complete order and does nothing.** -/
theorem enrich (h : r.Complete hash) (g : Registry) : r.enrich g hash = (r, .ok .alreadyEnriched) := by
  obtain ⟨o, ho, he⟩ := h
  simp only [Replica.enrich, Store.lookup, ho, he, if_true]

/-- one step: an update keeps on-chain data, and no attempt at another order touches this one -/
theorem move (h : r.Complete hash) {m : Move} (hq : m.Quiet) (hm : ¬ m.Deletes hash r) :
    (m.run r).Complete hash := by
  obtain ⟨o, ho, he⟩ := h
  cases m with
  | entry e =>
    simp only [Move.run, Complete, accept_store, Store.get?_accept, ho]
    split
    · next hfresh =>
      unfold LogEntry.on
      cases ha : e.action? with
      | none => exact ⟨o, rfl, he⟩
      | some a =>
        cases a with
        | delete key =>
          have hne : ¬ key = hash := fun heq => hm ⟨hfresh, heq ▸ ha⟩
          exact ⟨o, if_neg hne, he⟩
        | upsert key bookName data =>
          by_cases hk : key = hash
          · exact ⟨_, if_pos hk, he⟩
          · exact ⟨o, if_neg hk, he⟩
        | skip key => exact ⟨o, rfl, he⟩
    · exact ⟨o, rfl, he⟩
  | attempt g key =>
    have hattempted := enrich_attempted hq r key
    simp only [Move.run]
    generalize r.enrich g key = p at hattempted ⊢
    cases hattempted with
    | missing | complete | failed => exact ⟨o, ho, he⟩
    | merged hkey hincomplete =>
      have hne : ¬ key = hash := by
        rintro rfl
        rw [ho] at hkey
        cases hkey
        rw [he] at hincomplete
        cases hincomplete
      exact ⟨o, by rw [Store.get?_merge, if_neg hne]; exact ho, he⟩

theorem play (h : r.Complete hash) {ms : List Move} (hq : ∀ m ∈ ms, m.Quiet) (hlife : r.Survives hash ms) :
    (r.play ms).Complete hash := by
  induction ms generalizing r with
  | nil => exact h
  | cons m ms ih =>
    obtain ⟨hm, hms⟩ := hlife
    exact ih (h.move (hq m (by simp)) hm) (fun m' hm' => hq m' (List.mem_cons_of_mem _ hm')) hms

end Replica.Complete

/-! ## Deltas -/

/-- a successful attempt leaves the reply with the order -/
theorem Replica.enrich_enriched {g : Registry} (hg : g.Quiet) {r : Replica} {hash : String}
    (h : (r.enrich g hash).2 = .ok .enriched) :
    ∃ o data, r.store.get? hash = some o ∧ (g.fetched o).reply = .ok data ∧
      (r.enrich g hash).1.store.get? hash = some { o with onChainData := some data } := by
  have hattempted := enrich_attempted hg r hash
  generalize r.enrich g hash = p at hattempted h ⊢
  cases hattempted with
  | missing | complete | failed => cases h
  | merged ho _ hreply => exact ⟨_, _, ho, hreply, by rw [Store.get?_merge, if_pos rfl, ho]; rfl⟩

namespace Move

variable {r : Replica} {m : Move}

/-- a move with a delta is a successful attempt, which left the data of the delta with the order -/
theorem delta?_eq_some {d : Delta} (h : m.delta? r = some d) :
    ∃ o, (m.run r).store.get? d.hash = some o ∧ o.onChainData = some d.data := by
  cases m with
  | entry e => cases h
  | attempt g hash =>
    simp only [delta?, run] at h ⊢
    split at h
    · next r' heq =>
      obtain ⟨data, hdata, rfl⟩ := Option.map_eq_some_iff.1 h
      obtain ⟨o, ho, hdata⟩ := Option.bind_eq_some_iff.1 hdata
      exact ⟨o, by rw [heq]; exact ho, hdata⟩
    · cases h

/-- a telling delta leaves the order complete -/
theorem complete_of_tells {hash : String} {d : Delta} (h : m.delta? r = some d) (ht : d.tells hash = true) :
    (m.run r).Complete hash := by
  obtain ⟨o, ho, hdata⟩ := delta?_eq_some h
  simp only [Delta.tells, Bool.and_eq_true, decide_eq_true_eq] at ht
  obtain ⟨rfl, htells⟩ := ht
  exact ⟨o, ho, by rw [Order.isEnriched, hdata]; exact htells⟩

/-- no delta comes from a complete order -/
theorem hash_ne_of_complete {hash : String} (h : r.Complete hash) {d : Delta} (hd : m.delta? r = some d) :
    d.hash ≠ hash := by
  cases m with
  | entry e => cases hd
  | attempt g key =>
    by_cases hk : key = hash
    · subst hk
      simp only [delta?, h.enrich] at hd
      cases hd
    · simp only [delta?] at hd
      split at hd
      · obtain ⟨data, -, rfl⟩ := Option.map_eq_some_iff.1 hd
        exact hk
      · cases hd

/-- a move appends the text of its delta or nothing -/
theorem lines_run (hq : m.Quiet) :
    (m.run r).updates.lines = r.updates.lines ∨
      ∃ d id, m.delta? r = some d ∧ (m.run r).updates.lines = r.updates.lines ++ [⟨⟨id, some d.text⟩, 0⟩] := by
  cases m with
  | entry e => exact Or.inl (congrArg Log.lines (r.accept_logs e).1)
  | attempt g hash =>
    have hattempted := Replica.enrich_attempted hq r hash
    simp only [delta?, run]
    generalize r.enrich g hash = p at hattempted ⊢
    cases hattempted with
    | missing | complete | failed => exact Or.inl rfl
    | @merged o data ho =>
      rcases r.updates.append_cases (some (Delta.text ⟨hash, data⟩)) with ⟨-, hl⟩ | ⟨-, hl⟩
      · exact Or.inl hl
      · refine Or.inr ⟨⟨hash, data⟩, _, ?_, hl⟩
        simp only [Store.get?_merge, if_true, ho, Option.map_some, Option.bind_some]

end Move

namespace Replica

/-- a complete order has no further delta in its lifetime -/
theorem Complete.deltas {hash : String} {r : Replica} (h : r.Complete hash) {ms : List Move} (hq : ∀ m ∈ ms, m.Quiet)
    (hlife : r.Survives hash ms) : ∀ d ∈ r.deltas ms, d.tells hash = false := by
  induction ms generalizing r with
  | nil => intro d hd; cases hd
  | cons m ms ih =>
    obtain ⟨hm, hms⟩ := hlife
    intro d hd
    rcases List.mem_append.1 hd with hd | hd
    · have hne := Move.hash_ne_of_complete h (Option.mem_toList.1 hd)
      simp [Delta.tells, hne]
    · exact ih (h.move (hq m (by simp)) hm) (fun m' hm' => hq m' (List.mem_cons_of_mem _ hm')) hms d hd

/-- **A lifetime has at most one telling delta.** -/
theorem telling_deltas_length {hash : String} {r : Replica} {ms : List Move} (hq : ∀ m ∈ ms, m.Quiet)
    (hlife : r.Survives hash ms) : ((r.deltas ms).filter (Delta.tells hash)).length ≤ 1 := by
  induction ms generalizing r with
  | nil => exact Nat.zero_le 1
  | cons m ms ih =>
    obtain ⟨-, hms⟩ := hlife
    have hquiet : ∀ m' ∈ ms, m'.Quiet := fun m' hm' => hq m' (List.mem_cons_of_mem _ hm')
    have hrest := ih hquiet hms
    rw [deltas, List.filter_append]
    cases hd : m.delta? r with
    | none => exact hrest
    | some d =>
      cases ht : d.tells hash with
      | false => simpa [ht] using hrest
      | true =>
        have hcomplete := Move.complete_of_tells hd ht
        have hnil : ((m.run r).deltas ms).filter (Delta.tells hash) = [] :=
          List.filter_eq_nil_iff.2 fun d' hd' => by rw [hcomplete.deltas hquiet hms d' hd']; exact Bool.false_ne_true
        simp [hnil, ht]

/-- the moves append texts of their deltas and nothing else; an append that fails leaves one out -/
theorem lines_play {r : Replica} {ms : List Move} (hq : ∀ m ∈ ms, m.Quiet) :
    ∃ lines, (r.play ms).updates.lines = r.updates.lines ++ lines ∧
      (lines.map fun line => line.entry.payload).Sublist ((r.deltas ms).map fun d => some d.text) := by
  induction ms generalizing r with
  | nil => exact ⟨[], (List.append_nil _).symm, List.Sublist.refl _⟩
  | cons m ms ih =>
    obtain ⟨lines, hl, hsub⟩ := ih (r := m.run r) fun m' hm' => hq m' (List.mem_cons_of_mem _ hm')
    have hplay : (r.play (m :: ms)).updates.lines = (m.run r).updates.lines ++ lines := hl
    rw [hplay, deltas, List.map_append]
    rcases Move.lines_run (hq m (by simp)) with hm | ⟨d, id, hd, hm⟩
    · exact ⟨lines, by rw [hm], hsub.trans (List.sublist_append_right _ _)⟩
    · refine ⟨⟨⟨id, some d.text⟩, 0⟩ :: lines, ?_, ?_⟩
      · rw [hm, List.append_assoc]
        rfl
      · rw [hd]
        exact hsub.cons_cons _

end Replica

/-! ## Once per lifetime -/

/-- **An order is enriched at most once per lifetime.** Any calls are played by their moves, and these contain a stretch
that does not delete the order of a hash. Whenever an attempt in it succeeds, the order holds the reply of its source, and
is complete exactly if the reply says something; then every later attempt of the stretch finds it so and changes nothing
at all. The stretch has at most one delta that says something about the order, and what it appends to the update stream
are texts of its deltas. -/
theorem enriched_once (r : Replica) (calls : List Call) (hq : ∀ c ∈ calls, c.sources.Quiet) (hash : String)
    {before life after : List Move} (hcourse : r.course calls = before ++ life ++ after)
    (hlife : (r.play before).Survives hash life) :
    r.call calls = r.play (before ++ life ++ after) ∧
    (∀ first g later, life = first ++ .attempt g hash :: later →
      let s := r.play (before ++ first)
      (s.enrich g hash).2 = .ok .enriched →
        ∃ o data, s.store.get? hash = some o ∧ (g.fetched o).reply = .ok data ∧
          let o' : Order := { o with onChainData := some data }
          (s.enrich g hash).1.store.get? hash = some o' ∧ o'.isEnriched = !data.orderInfo.isNull ∧
          (o'.isEnriched = true → ∀ between g' rest, later = between ++ .attempt g' hash :: rest →
            let s' := (s.enrich g hash).1.play between
            s'.enrich g' hash = (s', .ok .alreadyEnriched))) ∧
    (((r.play before).deltas life).filter (Delta.tells hash)).length ≤ 1 ∧
    ∃ lines, (r.play (before ++ life)).updates.lines = (r.play before).updates.lines ++ lines ∧
      (lines.map fun line => line.entry.payload).Sublist
        (((r.play before).deltas life).map fun d => some d.text) := by
  have hquiet : ∀ m ∈ life, m.Quiet := by
    intro m hm
    refine r.quiet_course hq m ?_
    rw [hcourse]
    simp [hm]
  refine ⟨by rw [← hcourse, Replica.play_course], ?_, Replica.telling_deltas_length hquiet hlife, ?_⟩
  · rintro first g later rfl s henriched
    have hg : g.Quiet := hquiet (.attempt g hash) (by simp)
    have hlater : (s.enrich g hash).1.Survives hash later := by
      have hsplit := ((Replica.survives_append hash _ first _).1 hlife).2
      rw [← Replica.play_append] at hsplit
      exact hsplit.2
    obtain ⟨o, data, ho, hreply, hstored⟩ := Replica.enrich_enriched hg henriched
    refine ⟨o, data, ho, hreply, hstored, rfl, ?_⟩
    rintro hcomplete between g' rest rfl
    have hstays : ((s.enrich g hash).1.play between).Complete hash := by
      refine Replica.Complete.play ⟨_, hstored, hcomplete⟩ (fun m hm => hquiet m (by simp [hm])) ?_
      exact ((Replica.survives_append hash _ between _).1 hlater).1
    exact hstays.enrich g'
  · rw [Replica.play_append]
    exact Replica.lines_play hquiet

/-- an order is placed and enriched, and a round finds it complete and another one missing -/
theorem enriched_once_round :
    let g := answering ⟨.text "open", 1, 2⟩
    let s := ({} : Replica).play [.entry (.placing ⟨1, 0⟩)]
    ({} : Replica).course [.process g (.placing ⟨1, 0⟩), .enrichAll g ["b", "a"]] =
        [.entry (.placing ⟨1, 0⟩)] ++ [.attempt g "a", .attempt g "b", .attempt g "a"] ++ [] ∧
      (s.enrich g "a").2 = .ok .enriched ∧
      let s' := (s.enrich g "a").1.play [.attempt g "b"]
      s'.enrich g "a" = (s', .ok .alreadyEnriched) := by
  intro g
  have haccept : (({} : Replica).accept (.placing ⟨1, 0⟩)).2 = some "a" := by decide +kernel
  have hcourse : ({} : Replica).course [.process g (.placing ⟨1, 0⟩), .enrichAll g ["b", "a"]] =
      [.entry (.placing ⟨1, 0⟩)] ++ [.attempt g "a", .attempt g "b", .attempt g "a"] ++ [] := by
    simp [Replica.course, Call.moves, haccept]
  obtain ⟨-, hlater, -, -⟩ := enriched_once {} _ (by simp [Call.sources, g, answering_quiet]) "a" hcourse
    ⟨id, id, id, trivial⟩
  have hfirst := hlater [] g _ rfl
  obtain ⟨hres, hsays⟩ :
      let p := (({} : Replica).play [.entry (.placing ⟨1, 0⟩)]).enrich g "a"
      p.2.toOption = some .enriched ∧ (p.1.store.get? "a").any Order.isEnriched = true := by decide +kernel
  rw [List.append_nil] at hfirst
  generalize ({} : Replica).play [.entry (.placing ⟨1, 0⟩)] = s at hfirst hres hsays ⊢
  have henriched := eq_ok_of_toOption hres
  obtain ⟨o, data, -, -, hstored, -, hstays⟩ := hfirst henriched
  rw [hstored] at hsays
  exact ⟨hcourse, henriched, hstays hsays [.attempt g "b"] g [] rfl⟩

/-- An order can be enriched twice in one lifetime: the reply says nothing about it, so the order is not complete after
the first attempt, and the second one asks again, is counted and written back again. -/
theorem enriched_twice :
    let g := answering ⟨.null, 1, 2⟩
    let first := (({} : Replica).process ∅ (.placing ⟨1, 0⟩)).enrich g "a"
    let second := first.1.enrich g "a"
    g.Quiet ∧ first.2 = .ok .enriched ∧ (first.1.store.get? "a").any Order.isEnriched = false ∧
      second.2 = .ok .enriched ∧ second.1.asked.length = 2 ∧ second.1.counters.enriched = 2 ∧
      second.1.updates.lines.length = 2 := by
  intro g first second
  obtain ⟨hfirst, hincomplete, hsecond, hrest⟩ : first.2.toOption = some .enriched ∧
      (first.1.store.get? "a").any Order.isEnriched = false ∧ second.2.toOption = some .enriched ∧
      second.1.asked.length = 2 ∧ second.1.counters.enriched = 2 ∧ second.1.updates.lines.length = 2 := by
    decide +kernel
  exact ⟨answering_quiet _, eq_ok_of_toOption hfirst, hincomplete, eq_ok_of_toOption hsecond, hrest⟩

end ReplicatedOrders
