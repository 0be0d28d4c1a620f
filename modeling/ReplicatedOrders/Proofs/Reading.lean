/-
Reading: what the consumer's loop relies on when it reads a stream, whatever the sources do but move the cursor.

Ids rise along a stream. The consumer asks for the entries after its cursor (`unread`), takes some of the first ones,
and its cursor is then the id of the last one taken; so the next read begins where the last one ended.
- `Replica.process_cursor`, `Replica.process_received`, `Replica.process_lines`: what one entry does to the cursor, to
  the count of entries, and to the update stream.
- `unread_after_batch`: what is left to read after a batch.
-/
import ReplicatedOrders.Consumer.Timeline
import ReplicatedOrders.Proofs.Delta
import ReplicatedOrders.Proofs.Replay

namespace ReplicatedOrders

/-! ## Ids -/

namespace EntryId

/-- an id is known by what is ahead of it -/
theorem eq_of_lt_iff {a b : EntryId} (h : ∀ id, a < id ↔ b < id) : a = b := by
  have hab := h b
  have hba := h a
  rw [lt_iff_rank, lt_iff_rank] at hab hba
  exact rank_injective (by omega)

end EntryId

/-! ## What is left to read -/

/-- the entries of a log after an id -/
def unread (log : List LogEntry) (c : EntryId) : List LogEntry := log.filter (c < ·.id)

theorem mem_unread {log : List LogEntry} {c : EntryId} {e : LogEntry} :
    e ∈ unread log c ↔ e ∈ log ∧ c < e.id := by
  simp [unread]

section

variable {log : List LogEntry} (hlog : log.Pairwise fun a b => a.id < b.id)
include hlog

/-- a consumer accepts what it has not read yet -/
theorem accepted_eq_unread (c : EntryId) : accepted c log = unread log c := by
  induction log using List.reverseRecOn with
  | nil => rfl
  | append_singleton log e ih =>
    obtain ⟨hbefore, -, hlast⟩ := List.pairwise_append.1 hlog
    have hfresh : e.IsFresh c log ↔ c < e.id := and_iff_left fun b hb => hlast b hb e (by simp)
    rw [accepted_snoc, ih hbefore, unread, unread, List.filter_append]
    by_cases h : c < e.id <;> simp [hfresh, h]

/-- **A read begins where the last one ended.** When some of the first unread entries have been read, the others are
left. -/
theorem unread_after_batch {c : EntryId} {batch : List LogEntry} (hbatch : batch <+: unread log c) :
    unread log ((batch.map LogEntry.id).foldl max c) = (unread log c).drop batch.length := by
  obtain ⟨rest, hrest⟩ := hbatch
  have hnext : ∀ id, (batch.map LogEntry.id).foldl max c < id ↔ c < id ∧ ∀ e ∈ batch, e.id < id := by
    intro id
    rw [EntryId.foldl_max_lt_iff, List.forall_mem_map]
  have hrising : (batch ++ rest).Pairwise fun a b => a.id < b.id := by
    rw [hrest]
    exact hlog.sublist List.filter_sublist
  obtain ⟨-, -, hcut⟩ := List.pairwise_append.1 hrising
  generalize (batch.map LogEntry.id).foldl max c = next at hnext ⊢
  have hdone : batch.filter (next < ·.id) = [] := by
    rw [List.filter_eq_nil_iff]
    intro e he hlt
    exact e.id.lt_irrefl (((hnext e.id).1 (of_decide_eq_true hlt)).2 e he)
  have hleft : rest.filter (next < ·.id) = rest := by
    rw [List.filter_eq_self]
    intro e he
    have hunread : e ∈ unread log c := hrest ▸ List.mem_append_right batch he
    exact decide_eq_true ((hnext e.id).2 ⟨(mem_unread.1 hunread).2, fun b hb => hcut b hb e he⟩)
  calc unread log next
      = (unread log c).filter (next < ·.id) := by
        rw [unread, unread, List.filter_filter]
        refine List.filter_congr fun e _ => ?_
        have hahead := fun h => ((hnext e.id).1 h).1
        by_cases h : next < e.id <;> simp [h, hahead]
    _ = (batch ++ rest).filter (next < ·.id) := by rw [hrest]
    _ = rest := by rw [List.filter_append, hdone, hleft, List.nil_append]
    _ = (unread log c).drop batch.length := by rw [← hrest, List.drop_left]

/-- the cursor after some of the first unread entries is the id of the last one -/
theorem foldl_max_batch {c : EntryId} {batch : List LogEntry} (hbatch : batch <+: unread log c) :
    (batch.map LogEntry.id).foldl max c = (batch.getLast?.map LogEntry.id).getD c := by
  have hrising : batch.Pairwise fun a b => a.id < b.id :=
    hlog.sublist (hbatch.sublist.trans List.filter_sublist)
  induction batch using List.reverseRecOn with
  | nil => rfl
  | append_singleton batch e _ =>
    obtain ⟨-, -, hlast⟩ := List.pairwise_append.1 hrising
    have hahead : (batch.map LogEntry.id).foldl max c < e.id := by
      rw [EntryId.foldl_max_lt_iff, List.forall_mem_map]
      exact ⟨(mem_unread.1 (hbatch.subset (by simp))).2, fun b hb => hlast b hb e (by simp)⟩
    rw [List.map_append, List.foldl_append, List.getLast?_concat]
    exact EntryId.max_eq_right hahead

end

/-! ## Sources that leave the cursor alone -/

namespace Registry

/-- a source may change orders while it looks something up, but it does not move the cursor -/
def KeepsCursor (g : Registry) : Prop :=
  ∀ (family : String) (source : Source), g[family]? = some source → ∀ o, ∀ w ∈ (source o).writes, ∀ s : Store,
    (w.run s).cursor = s.cursor

theorem Quiet.keepsCursor {g : Registry} (h : g.Quiet) : g.KeepsCursor := by
  intro family source hsource o w hw
  rw [h family source hsource o] at hw
  cases hw

theorem KeepsCursor.after {g : Registry} (h : g.KeepsCursor) (o : Order) (s : Store) :
    (s.after (g.fetched o).writes).cursor = s.cursor := by
  have hkeeps : ∀ w ∈ (g.fetched o).writes, ∀ s : Store, (w.run s).cursor = s.cursor := by
    unfold Registry.fetched Replica.ask
    split
    · exact nofun
    · split
      · exact nofun
      · next source hsource => exact h _ source hsource o
  generalize (g.fetched o).writes = ws at hkeeps
  induction ws generalizing s with
  | nil => rfl
  | cons w ws ih =>
    exact (ih (w.run s) fun w' hw' => hkeeps w' (List.mem_cons_of_mem _ hw')).trans (hkeeps w (by simp) s)

end Registry

/-! ## One attempt, with any sources -/

namespace Replica

/-- the ways in which an attempt can end, whatever the lookup writes to the store -/
inductive Tried (g : Registry) (r : Replica) (hash : String) : Replica → Prop where
  /-- nobody is asked -/
  | settled : Tried g r hash r
  | failed (o : Order) :
    Tried g r hash
      { r with
          store := r.store.after (g.fetched o).writes
          asked := g.asks o ++ r.asked
          counters := { r.counters with failed := r.counters.failed + 1 } }
  /-- the order is gone when the reply comes -/
  | removed (o : Order) :
    Tried g r hash { r with store := r.store.after (g.fetched o).writes, asked := g.asks o ++ r.asked }
  | merged (o : Order) (data : OnChainData) :
    Tried g r hash
      { r with
          store := ((r.store.after (g.fetched o).writes).merge hash data).1
          asked := g.asks o ++ r.asked
          updates := (r.updates.append (some (Delta.text ⟨hash, data⟩))).1
          counters := { r.counters with enriched := r.counters.enriched + 1 } }

/-- **Every attempt ends in one of the four ways.** -/
theorem enrich_tried (g : Registry) (r : Replica) (hash : String) : Tried g r hash (r.enrich g hash).1 := by
  cases hlookup : r.store.lookup hash with
  | settled out =>
    rw [enrich, hlookup]
    exact .settled
  | incomplete o =>
    rw [enrich_incomplete hlookup]
    cases (g.fetched o).reply with
    | error e => exact .failed o
    | ok data =>
      simp only [settle, merge]
      cases hstands : (r.store.after (g.fetched o).writes).get? hash with
      | none =>
        have hmerge : (r.store.after (g.fetched o).writes).merge hash data =
            (r.store.after (g.fetched o).writes, false) := by rw [Store.merge, hstands]
        rw [hmerge]
        exact .removed o
      | some o' =>
        have hmerge : (r.store.after (g.fetched o).writes).merge hash data =
            (((r.store.after (g.fetched o).writes).merge hash data).1, true) := by rw [Store.merge, hstands]
        rw [hmerge]
        exact .merged o data

theorem enrich_cursor {g : Registry} (hg : g.KeepsCursor) (r : Replica) (hash : String) :
    (r.enrich g hash).1.store.cursor = r.store.cursor := by
  have htried := enrich_tried g r hash
  generalize (r.enrich g hash).1 = r' at htried ⊢
  cases htried with
  | settled => rfl
  | failed o | removed o => exact hg.after o r.store
  | merged o data => exact (Store.cursor_merge _ hash data).trans (hg.after o r.store)

theorem enrich_received (g : Registry) (r : Replica) (hash : String) :
    (r.enrich g hash).1.counters.received = r.counters.received := by
  have htried := enrich_tried g r hash
  generalize (r.enrich g hash).1 = r' at htried ⊢
  cases htried <;> rfl

end Replica

/-! ## One entry -/

namespace LogEntry

/-- the entry is an update that places or changes an order -/
def isUpsert (e : LogEntry) : Bool :=
  match e.action? with
  | some (.upsert _ _ _) => true
  | _ => false

/-- the entry was written back by an attempt -/
def IsDelta (e : LogEntry) : Prop := ∃ d : Delta, e.payload = some d.text

theorem IsDelta.isUpsert {e : LogEntry} (h : e.IsDelta) : e.isUpsert = false := by
  obtain ⟨id, payload⟩ := e
  obtain ⟨d, rfl⟩ := h
  unfold LogEntry.isUpsert
  rcases d.action?_text id with ha | ha <;> rw [ha]

end LogEntry

/-- a line that an attempt writes: a delta, seen at once -/
def LogLine.IsAnswer (line : LogLine) : Prop := line.entry.IsDelta ∧ line.since = 0

namespace Replica

theorem enrich_lines (g : Registry) (r : Replica) (hash : String) :
    ∃ lines, (r.enrich g hash).1.updates.lines = r.updates.lines ++ lines ∧ lines.length ≤ 1 ∧
      ∀ line ∈ lines, line.IsAnswer := by
  have htried := enrich_tried g r hash
  generalize (r.enrich g hash).1 = r' at htried ⊢
  cases htried with
  | settled | failed | removed => exact ⟨[], (List.append_nil _).symm, by simp, by simp⟩
  | merged o data =>
    rcases r.updates.append_cases (some (Delta.text ⟨hash, data⟩)) with ⟨-, hl⟩ | ⟨-, hl⟩
    · exact ⟨[], hl.trans (List.append_nil _).symm, by simp, by simp⟩
    · refine ⟨_, hl, by simp, fun line hline => ?_⟩
      rw [List.mem_singleton.1 hline]
      exact ⟨⟨⟨hash, data⟩, rfl⟩, rfl⟩

/-- an attempt follows the section of an entry only if the entry is an upsert -/
theorem process_cases_upsert (g : Registry) (r : Replica) (e : LogEntry) :
    r.process g e = (r.accept e).1 ∨ e.isUpsert = true ∧ ∃ hash, r.process g e = ((r.accept e).1.enrich g hash).1 := by
  have haccepted := r.accept_accepted e
  unfold process
  generalize r.accept e = p at haccepted ⊢
  cases haccepted with
  | stale | malformed | skipped | deleted => exact Or.inl rfl
  | upserted h ha => exact Or.inr ⟨by rw [LogEntry.isUpsert, ha], _, rfl⟩

theorem process_cursor {g : Registry} (hg : g.KeepsCursor) (r : Replica) (e : LogEntry) :
    (r.process g e).store.cursor = max r.store.cursor e.id := by
  have haccept : (r.accept e).1.store.cursor = max r.store.cursor e.id := by
    rw [accept_store, Store.cursor_accept]
  rcases r.process_cases_upsert g e with h | ⟨-, hash, h⟩
  · rw [h, haccept]
  · rw [h, enrich_cursor hg, haccept]

theorem process_received (g : Registry) (r : Replica) (e : LogEntry) :
    (r.process g e).counters.received = r.counters.received + 1 := by
  have haccept : (r.accept e).1.counters.received = r.counters.received + 1 := by
    have haccepted := r.accept_accepted e
    generalize r.accept e = p at haccepted ⊢
    cases haccepted <;> rfl
  rcases r.process_cases_upsert g e with h | ⟨-, hash, h⟩
  · rw [h, haccept]
  · rw [h, enrich_received, haccept]

/-- a delta is answered by nothing -/
theorem process_updates_of_isDelta {e : LogEntry} (h : e.IsDelta) (g : Registry) (r : Replica) :
    (r.process g e).updates = r.updates := by
  rcases r.process_cases_upsert g e with hp | ⟨hupsert, -⟩
  · rw [hp, (r.accept_logs e).1]
  · rw [h.isUpsert] at hupsert
    cases hupsert

/-- **An entry is answered by at most one delta, and only an upsert is.** -/
theorem process_lines (g : Registry) (r : Replica) (e : LogEntry) :
    ∃ lines, (r.process g e).updates.lines = r.updates.lines ++ lines ∧ lines.length ≤ e.isUpsert.toNat ∧
      ∀ line ∈ lines, line.IsAnswer := by
  have haccept := (r.accept_logs e).1
  rcases r.process_cases_upsert g e with h | ⟨hupsert, hash, h⟩
  · exact ⟨[], by rw [h, haccept, List.append_nil], by simp, by simp⟩
  · rw [h, hupsert, ← haccept]
    exact enrich_lines g _ hash

theorem processEach_cursor {steps : List (Registry × LogEntry)} (hg : ∀ p ∈ steps, p.1.KeepsCursor) (r : Replica) :
    (r.processEach steps).store.cursor = (steps.map fun p => p.2.id).foldl max r.store.cursor := by
  induction steps generalizing r with
  | nil => rfl
  | cons p steps ih =>
    have hrest := ih (fun q hq => hg q (List.mem_cons_of_mem _ hq)) (r.process p.1 p.2)
    rw [process_cursor (hg p (by simp))] at hrest
    exact hrest

theorem processEach_received (r : Replica) (steps : List (Registry × LogEntry)) :
    (r.processEach steps).counters.received = r.counters.received + steps.length := by
  induction steps generalizing r with
  | nil => rfl
  | cons p steps ih =>
    have hrest := ih (r.process p.1 p.2)
    rw [process_received, Nat.add_right_comm] at hrest
    exact hrest

theorem processEach_lines (r : Replica) (steps : List (Registry × LogEntry)) :
    ∃ lines, (r.processEach steps).updates.lines = r.updates.lines ++ lines ∧
      lines.length ≤ (steps.map Prod.snd).countP LogEntry.isUpsert ∧ ∀ line ∈ lines, line.IsAnswer := by
  induction steps generalizing r with
  | nil => exact ⟨[], (List.append_nil _).symm, by simp, by simp⟩
  | cons p steps ih =>
    obtain ⟨first, hfirst, hone, hanswer⟩ := r.process_lines p.1 p.2
    obtain ⟨rest, hrest, hlen, hanswers⟩ := ih (r.process p.1 p.2)
    refine ⟨first ++ rest, ?_, ?_, ?_⟩
    · rw [← List.append_assoc, ← hfirst]
      exact hrest
    · rw [List.length_append, List.map_cons, List.countP_cons]
      have hcount : p.2.isUpsert.toNat = if p.2.isUpsert = true then 1 else 0 := by cases p.2.isUpsert <;> rfl
      omega
    · intro line hline
      rcases List.mem_append.1 hline with hl | hl
      · exact hanswer line hl
      · exact hanswers line hl

end Replica

end ReplicatedOrders
