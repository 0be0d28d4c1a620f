/-
Provenance: where the on-chain data of an order comes from.

Producers cannot write on-chain data: whatever a payload holds, an update keeps the on-chain data of its order, and a
deletion drops it with the order. So an order either has its on-chain data from the start and was never deleted since,
or a source was asked about it after its last deletion and said exactly this.
- `Store.Own.empty`, `Store.Own.ofSnapshot`, `Store.Own.play`: every order stands under its own hash, from the start of
  every replica on.
- `Move.onChainData_run`: one move keeps on-chain data, or merges what a source says.
- `Replica.origin_play`: the origin of on-chain data after any moves, by induction on the moves.
- `onChainData_origin`: the same for calls, and what a deletion rules out.
-/
import ReplicatedOrders.Proofs.Image
import ReplicatedOrders.Proofs.Lifetime
import ReplicatedOrders.Proofs.Replay

namespace ReplicatedOrders

/-! ## Orders under their own hash -/

/-- every order stands under its own hash -/
def Store.Own (s : Store) : Prop := s.Holds fun hash o => o.hash = hash

theorem Store.Own.empty : ({} : Store).Own := by
  intro hash o ho
  rw [get?_empty] at ho
  cases ho

/-- an image decides by its keys -/
theorem Store.Own.ofSnapshot (image : Snapshot) : (ofSnapshot image).Own := by
  intro hash o ho
  rw [get?_ofSnapshot] at ho
  split at ho
  · cases ho
  · obtain ⟨o', -, rfl⟩ := Option.map_eq_some_iff.1 ho
    rfl

/-- an entry keeps every order under its own hash -/
theorem Store.Own.accept {s : Store} (h : s.Own) (e : LogEntry) : (s.accept e).Own := by
  refine Holds.accept h fun hash bookName data o _ ho => ?_
  rcases ho with ho | rfl
  · exact ho
  · rfl

theorem Store.Own.move {r : Replica} (h : r.store.Own) {m : Move} (hq : m.Quiet) : (m.run r).store.Own := by
  cases m with
  | entry e =>
    rw [Move.run, Replica.accept_store]
    exact h.accept e
  | attempt g hash =>
    rw [Move.run, Replica.enrich_store hq]
    exact Store.Holds.attempt h hash fun _ _ _ ho _ => ho

theorem Store.Own.play {r : Replica} (h : r.store.Own) {ms : List Move} (hq : ∀ m ∈ ms, m.Quiet) :
    (r.play ms).store.Own := by
  induction ms generalizing r with
  | nil => exact h
  | cons m ms ih => exact ih (h.move (hq m (by simp))) fun m' hm' => hq m' (List.mem_cons_of_mem _ hm')

/-! ## One move -/

/-- on-chain data after an accepted entry was there before it, and the entry does not delete the order -/
theorem LogEntry.onChainData_on {key : String} {e : LogEntry} {before : Option Order} {o : Order} {data : OnChainData}
    (ho : e.on key before = some o) (hd : o.onChainData = some data) :
    e.action? ≠ some (.delete key) ∧ ∃ old, before = some old ∧ old.onChainData = some data := by
  unfold LogEntry.on at ho
  cases ha : e.action? with
  | none =>
    rw [ha] at ho
    exact ⟨fun h => (by cases h), o, ho, hd⟩
  | some a =>
    rw [ha] at ho
    cases a with
    | delete hash =>
      simp only [Action.on] at ho
      split at ho
      · cases ho
      · next hne => exact ⟨fun h => hne (by cases h; rfl), o, ho, hd⟩
    | upsert hash bookName v =>
      refine ⟨fun h => (by cases h), ?_⟩
      simp only [Action.on] at ho
      split at ho
      · cases ho
        -- an order that is new has no on-chain data
        cases before with
        | none => cases hd
        | some old => exact ⟨old, rfl, hd⟩
      · exact ⟨o, ho, hd⟩
    | skip hash => exact ⟨fun h => (by cases h), o, ho, hd⟩

/-- **On-chain data after one move** was there before it, and the move is no deletion of the order; or the move is an
attempt at the order and the data is the reply. -/
theorem Move.onChainData_run {r : Replica} {m : Move} (hq : m.Quiet) {hash : String} {o : Order} {data : OnChainData}
    (ho : (m.run r).store.get? hash = some o) (hd : o.onChainData = some data) :
    (¬ m.Deletes hash r ∧ ∃ old, r.store.get? hash = some old ∧ old.onChainData = some data) ∨
      ∃ g asked, m = .attempt g hash ∧ r.store.get? hash = some asked ∧ (g.fetched asked).reply = .ok data ∧
        (m.run r).asked = g.asks asked ++ r.asked := by
  cases m with
  | entry e =>
    refine Or.inl ?_
    rw [run, Replica.accept_store, Store.get?_accept] at ho
    split at ho
    · obtain ⟨hne, hold⟩ := LogEntry.onChainData_on ho hd
      exact ⟨fun hdel => hne hdel.2, hold⟩
    · next hstale => exact ⟨fun hdel => hstale hdel.1, o, ho, hd⟩
  | attempt g key =>
    have hattempted := Replica.enrich_attempted hq r key
    simp only [run] at ho ⊢
    generalize r.enrich g key = p at hattempted ho ⊢
    cases hattempted with
    | missing | complete | failed => exact Or.inl ⟨id, o, ho, hd⟩
    | @merged asked reply hasked _ hreply =>
      rw [Store.get?_merge] at ho
      split at ho
      · next hk =>
        subst hk
        rw [hasked] at ho
        cases ho
        cases hd
        exact Or.inr ⟨g, asked, rfl, hasked, hreply, rfl⟩
      · exact Or.inl ⟨id, o, ho, hd⟩

/-! ## The origin of on-chain data -/

namespace Replica

/-- the data was with the order at the start, and no move has deleted the order since -/
def Kept (hash : String) (r : Replica) (ms : List Move) (data : OnChainData) : Prop :=
  (∃ o, r.store.get? hash = some o ∧ o.onChainData = some data) ∧ r.Survives hash ms

/-- The data is what a source said during the moves: an attempt asked the source of the name that the order then had,
about the order as it stood, with off-chain data and under its own hash, and no move has deleted the order since. -/
def Fetched (hash : String) (r : Replica) (ms : List Move) (data : OnChainData) : Prop :=
  ∃ before g after, ms = before ++ .attempt g hash :: after ∧
    let s := r.play before
    (∃ o source, s.store.get? hash = some o ∧ (r.store.Own → o.hash = hash) ∧ o.hasOffChainData = true ∧
      g[o.bookName]? = some source ∧ (source o).reply = .ok data ∧
      (s.enrich g hash).1.asked = (o.bookName, o) :: s.asked) ∧
    (s.enrich g hash).1.Survives hash after

variable {hash : String} {r : Replica} {ms : List Move} {data : OnChainData}

theorem Kept.snoc (h : r.Kept hash ms data) {m : Move} (hm : ¬ m.Deletes hash (r.play ms)) :
    r.Kept hash (ms ++ [m]) data :=
  ⟨h.1, (survives_append hash r ms [m]).2 ⟨h.2, hm, trivial⟩⟩

theorem Fetched.snoc (h : r.Fetched hash ms data) {m : Move} (hm : ¬ m.Deletes hash (r.play ms)) :
    r.Fetched hash (ms ++ [m]) data := by
  obtain ⟨before, g, after, rfl, hasked, hlife⟩ := h
  rw [play_append] at hm
  refine ⟨before, g, after ++ [m], by simp, hasked, ?_⟩
  exact (survives_append hash _ after [m]).2 ⟨hlife, hm, trivial⟩

/-- a reply with data comes from a source that was asked -/
theorem asks_of_reply {g : Registry} {o : Order} (h : (g.fetched o).reply = .ok data) :
    ∃ source, o.hasOffChainData = true ∧ g[o.bookName]? = some source ∧ (source o).reply = .ok data ∧
      g.asks o = [(o.bookName, o)] := by
  obtain ⟨hoff, source, hsource, hreply⟩ := fetched_eq_ok h
  refine ⟨source, hoff, hsource, hreply, ?_⟩
  simp [Registry.asks, ask, hoff, hsource]

/-- **Every bit of on-chain data has an origin.** -/
theorem origin_play (hq : ∀ m ∈ ms, m.Quiet) {o : Order} (ho : (r.play ms).store.get? hash = some o)
    (hd : o.onChainData = some data) : r.Kept hash ms data ∨ r.Fetched hash ms data := by
  induction ms using List.reverseRecOn generalizing o with
  | nil => exact Or.inl ⟨⟨o, ho, hd⟩, trivial⟩
  | append_singleton ms m ih =>
    have hquiet : ∀ m' ∈ ms, m'.Quiet := fun m' hm' => hq m' (List.mem_append_left _ hm')
    rw [play_append] at ho
    rcases Move.onChainData_run (hq m (by simp)) ho hd with ⟨hm, old, hold, hdata⟩ | ⟨g, asked, rfl, hasked, hr, hques⟩
    · rcases ih hquiet hold hdata with h | h
      · exact Or.inl (h.snoc hm)
      · exact Or.inr (h.snoc hm)
    · obtain ⟨source, hoff, hsource, hreply, hone⟩ := asks_of_reply hr
      rw [hone] at hques
      exact Or.inr ⟨ms, g, [], rfl, ⟨asked, source, hasked, fun hown => hown.play hquiet hash asked hasked, hoff,
        hsource, hreply, hques⟩, trivial⟩

/-- right after its deletion an order is gone -/
theorem get?_of_deletes {m : Move} (h : m.Deletes hash r) : (m.run r).store.get? hash = none := by
  cases m with
  | attempt g key => cases h
  | entry e =>
    obtain ⟨hfresh, ha⟩ := h
    rw [Move.run, accept_store, Store.get?_accept, if_pos hfresh, LogEntry.on, ha]
    exact if_pos rfl

end Replica

/-- **On-chain data comes only from enrichment.** Whatever calls are made and whatever the payloads hold, an order with
on-chain data had it from the start and was not deleted since, or it holds exactly what the source of its name replied
in one of the calls, and it was not deleted since. After a deletion only the second is possible, with a reply that came
after it. -/
theorem onChainData_origin (r : Replica) (calls : List Call) (hq : ∀ c ∈ calls, c.sources.Quiet) {hash : String}
    {o : Order} {data : OnChainData} (ho : (r.call calls).store.get? hash = some o) (hd : o.onChainData = some data) :
    (r.Kept hash (r.course calls) data ∨ r.Fetched hash (r.course calls) data) ∧
      ∀ before m after, r.course calls = before ++ m :: after → m.Deletes hash (r.play before) →
        (r.play (before ++ [m])).Fetched hash after data := by
  have hquiet := r.quiet_course hq
  rw [← Replica.play_course] at ho
  refine ⟨Replica.origin_play hquiet ho hd, fun before m after hsplit hdel => ?_⟩
  rw [hsplit] at ho hquiet
  have hlast : (r.play (before ++ [m])).store.get? hash = none := by
    rw [Replica.play_append]
    exact Replica.get?_of_deletes hdel
  have hafter : ((r.play (before ++ [m])).play after).store.get? hash = some o := by
    rw [← Replica.play_append, List.append_assoc]
    exact ho
  rcases Replica.origin_play (fun m' hm' => hquiet m' (by simp [hm'])) hafter hd with h | h
  · obtain ⟨⟨o', ho', -⟩, -⟩ := h
    rw [hlast] at ho'
    cases ho'
  · exact h

/-- a replica with an order that a source has answered for -/
def answered : Replica := ({} : Replica).process (answering ⟨.null, 1, 2⟩) (.placing ⟨1, 0⟩)

namespace LogEntry

/-- the deletion of the order -/
def removal : LogEntry := ⟨⟨2, 0⟩, some "\x7b\"orderHash\":\"a\",\"deleted\":true\x7d"⟩

/-- its return, with on-chain data of the producer's own -/
def comeback : LogEntry :=
  ⟨⟨3, 0⟩, some ("\x7b\"orderHash\":\"a\",\"orderBookName\":\"F1\",\"offChainData\":1," ++
    "\"onChainData\":\x7b\"orderInfo\":1,\"makerBalance_weiUnits\":5,\"makerAllowance_weiUnits\":6\x7d\x7d")⟩

end LogEntry

/-- What the order holds in the end is neither the old data nor the producer's, but the reply after the deletion. -/
theorem onChainData_origin_comeback :
    let g := answering ⟨.null, 3, 4⟩
    ∃ o data, (answered.call [.process ∅ .removal, .process g .comeback]).store.get? "a" = some o ∧
      o.onChainData = some data ∧ data.makerBalance = 3 ∧
      (answered.play [.entry .removal]).Fetched "a" [.entry .comeback, .attempt g "a"] data := by
  intro g
  have hg : g.Quiet := answering_quiet _
  have hremoved : (answered.accept .removal).2 = none := by decide +kernel
  have hreturned : ((answered.process ∅ .removal).accept .comeback).2 = some "a" := by decide +kernel
  have hdeletes : answered.store.cursor < LogEntry.removal.id ∧ LogEntry.removal.deletes "a" = true := by
    decide +kernel
  have hbalance : (((answered.call [.process ∅ .removal, .process g .comeback]).store.get? "a").bind
      Order.onChainData).map OnChainData.makerBalance = some 3 := by decide +kernel
  have hcourse : answered.course [.process ∅ .removal, .process g .comeback] =
      [] ++ .entry .removal :: [.entry .comeback, .attempt g "a"] := by
    simp [Replica.course, Call.moves, Call.run, hremoved, hreturned]
  generalize answered = r at hdeletes hbalance hcourse ⊢
  obtain ⟨data, hdata, hthree⟩ := Option.map_eq_some_iff.1 hbalance
  obtain ⟨o, ho, hd⟩ := Option.bind_eq_some_iff.1 hdata
  have hquiet : ∀ c ∈ [Call.process ∅ .removal, .process g .comeback], c.sources.Quiet := by
    simp [Call.sources, Registry.quiet_empty, hg]
  obtain ⟨-, hafter⟩ := onChainData_origin r _ hquiet ho hd
  refine ⟨o, data, ho, hd, hthree, hafter [] (.entry .removal) _ hcourse ?_⟩
  exact ⟨hdeletes.1, LogEntry.deletes_iff.1 hdeletes.2⟩

end ReplicatedOrders
