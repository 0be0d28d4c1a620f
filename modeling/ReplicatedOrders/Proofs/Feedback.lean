/-
Feedback: the consumer reads the very stream that it writes deltas to, and comes to its end all the same.

Every read takes entries off what is left and may add deltas to it, at most one for each upsert that it took; a delta
is no upsert and adds nothing. So the entries that are left and the upserts among them become fewer together with every
read that finds an entry, however the reads cut the stream, whatever the sources say and whichever appends fail.
- `Drained`: from one state to a later one, what was read and what was written.
- `Feedback.pull_drained`, `Feedback.run_drained`: one read, and a run by induction.
- `Feedback.run_ends`: the bounds, and where a run ends.
- `Feedback.run_own`: a consumer that reads its own update stream is such a pair.
- `feedback_dies_out`: all of it.
-/
import ReplicatedOrders.Proofs.Timelines

namespace ReplicatedOrders

/-- a consumer, and the stream that it reads and that what it writes back is added to -/
structure Feedback where
  consumer : Consumer
  stream : List LogEntry

/-- one read -/
structure Pull where
  /-- the sources as they answer at each entry; so many entries are read at most -/
  sources : List Registry
  /-- the ids that the stream gives to what is written -/
  ids : Nat → EntryId

namespace Feedback

def cursor (f : Feedback) : EntryId := f.consumer.replica.store.cursor

def received (f : Feedback) : Nat := f.consumer.replica.counters.received

/-- the entries that are still to be read -/
def left (f : Feedback) : List LogEntry := unread f.stream f.cursor

/-- the entries that a read finds -/
def batch (cfg : ConsumerConfig) (f : Feedback) (p : Pull) : List (Registry × LogEntry) :=
  p.sources.zip (f.left.take cfg.batchSize.toNat)

/-- the round of the consumer after a read -/
def next (cfg : ConsumerConfig) (f : Feedback) (p : Pull) : Consumer :=
  (f.consumer.afterDelivery cfg (.ok (f.batch cfg p))).1

/-- the lines that the consumer writes in a round -/
def written (cfg : ConsumerConfig) (f : Feedback) (p : Pull) : List LogLine :=
  (f.next cfg p).replica.updates.lines.drop f.consumer.replica.updates.lines.length

/-- the same as entries of the stream, under the ids that it gives -/
def added (cfg : ConsumerConfig) (f : Feedback) (p : Pull) : List LogEntry :=
  (f.written cfg p).mapIdx fun i line => ⟨p.ids i, line.entry.payload⟩

def pull (cfg : ConsumerConfig) (f : Feedback) (p : Pull) : Feedback := ⟨f.next cfg p, f.stream ++ f.added cfg p⟩

def run (cfg : ConsumerConfig) (f : Feedback) (pulls : List Pull) : Feedback := pulls.foldl (pull cfg) f

theorem run_snoc (cfg : ConsumerConfig) (f : Feedback) (pulls : List Pull) (p : Pull) :
    f.run cfg (pulls ++ [p]) = (f.run cfg pulls).pull cfg p := by
  simp [run, List.foldl_append]

end Feedback

/-! ## From one state to a later one -/

/-- from `f` to `f'`, the consumer has read `batch`, and `deltas` were added to the stream -/
structure Drained (f f' : Feedback) (batch deltas : List LogEntry) : Prop where
  stream : f'.stream = f.stream ++ deltas
  inert : ∀ e ∈ deltas, e.IsDelta
  few : deltas.length ≤ batch.countP LogEntry.isUpsert
  /-- what was there and what was added is what was read and what is left -/
  balance : f.left ++ deltas = batch ++ f'.left
  cursor : f'.cursor = (batch.map LogEntry.id).foldl max f.cursor
  received : f'.received = f.received + batch.length

namespace Drained

variable {f f' f'' : Feedback} {batch batch' deltas deltas' : List LogEntry}

theorem refl (f : Feedback) : Drained f f [] [] :=
  ⟨(List.append_nil _).symm, by simp, by simp, by simp, rfl, rfl⟩

theorem trans (h : Drained f f' batch deltas) (h' : Drained f' f'' batch' deltas') :
    Drained f f'' (batch ++ batch') (deltas ++ deltas') where
  stream := by rw [h'.stream, h.stream, List.append_assoc]
  inert := List.forall_mem_append.2 ⟨h.inert, h'.inert⟩
  few := by
    have hfew := h.few
    have hfew' := h'.few
    rw [List.length_append, List.countP_append]
    omega
  balance := by
    calc f.left ++ (deltas ++ deltas')
        = batch ++ (f'.left ++ deltas') := by rw [← List.append_assoc, h.balance, List.append_assoc]
      _ = batch ++ batch' ++ f''.left := by rw [h'.balance, List.append_assoc]
  cursor := by rw [h'.cursor, h.cursor, List.map_append, List.foldl_append]
  received := by rw [h'.received, h.received, List.length_append, Nat.add_assoc]

/-- deltas answer upserts that were left at first, because no delta is an upsert -/
theorem few_upserts (h : Drained f f' batch deltas) : deltas.length ≤ f.left.countP LogEntry.isUpsert := by
  have hdeltas : deltas.countP LogEntry.isUpsert = 0 :=
    List.countP_eq_zero.2 fun e he => by simp [(h.inert e he).isUpsert]
  calc deltas.length
      ≤ batch.countP LogEntry.isUpsert := h.few
    _ ≤ (batch ++ f'.left).countP LogEntry.isUpsert := by
        rw [List.countP_append]
        exact Nat.le_add_right _ _
    _ = f.left.countP LogEntry.isUpsert := by rw [← h.balance, List.countP_append, hdeltas, Nat.add_zero]

theorem length_balance (h : Drained f f' batch deltas) :
    f.left.length + deltas.length = batch.length + f'.left.length := by
  have hbalance := congrArg List.length h.balance
  rwa [List.length_append, List.length_append] at hbalance

/-- at the end of the stream the cursor is the greatest id, or where it was if that is greater -/
theorem cursor_of_left_nil (h : Drained f f' batch deltas) (hleft : f'.left = []) :
    f'.cursor = (f'.stream.map LogEntry.id).foldl max f.cursor := by
  have hbatch : batch = f.left ++ deltas := by rw [h.balance, hleft, List.append_nil]
  rw [h.cursor, h.stream, hbatch]
  apply EntryId.eq_of_lt_iff
  intro id
  simp only [EntryId.foldl_max_lt_iff, List.forall_mem_map, List.forall_mem_append]
  constructor
  · rintro ⟨hc, hleft, hdeltas⟩
    refine ⟨hc, fun e he => ?_, hdeltas⟩
    by_cases hunread : f.cursor < e.id
    · exact hleft e (mem_unread.2 ⟨he, hunread⟩)
    · rw [EntryId.lt_iff_rank] at hunread hc ⊢
      omega
  · rintro ⟨hc, hstream, hdeltas⟩
    exact ⟨hc, fun e he => hstream e (mem_unread.1 he).1, hdeltas⟩

end Drained

/-! ## Reads -/

/-- entries that are paired with sources are the first ones -/
theorem map_snd_zip_first {α β : Type} (as : List α) (bs : List β) : (as.zip bs).map Prod.snd <+: bs := by
  induction as generalizing bs with
  | nil => exact List.nil_prefix
  | cons a as ih =>
    cases bs with
    | nil => exact List.nil_prefix
    | cons b bs => exact (List.prefix_cons_inj b).2 (ih bs)

/-- what is left after some of the first unread entries have been read and others were added, if any were read then -/
theorem unread_append {log more read : List LogEntry} {c : EntryId}
    (hlog : (log ++ more).Pairwise fun a b => a.id < b.id) (hread : read <+: unread log c)
    (hmore : more.length ≤ read.length) :
    unread (log ++ more) ((read.map LogEntry.id).foldl max c) = (unread log c).drop read.length ++ more := by
  obtain ⟨hbefore, -, habove⟩ := List.pairwise_append.1 hlog
  -- the new cursor is the id of an entry of the log, so what was added is ahead of it
  have hahead : ∀ e ∈ more, (read.map LogEntry.id).foldl max c < e.id := by
    intro e he
    have hbetween : ∀ x ∈ read, c < x.id ∧ x.id < e.id := by
      intro x hx
      obtain ⟨hstands, hunread⟩ := mem_unread.1 (hread.subset hx)
      exact ⟨hunread, habove x hstands e he⟩
    obtain ⟨x, hx⟩ := List.exists_mem_of_length_pos ((List.length_pos_of_mem he).trans_le hmore)
    obtain ⟨hcx, hxe⟩ := hbetween x hx
    rw [EntryId.foldl_max_lt_iff, List.forall_mem_map]
    refine ⟨?_, fun y hy => (hbetween y hy).2⟩
    rw [EntryId.lt_iff_rank] at hcx hxe ⊢
    exact hcx.trans hxe
  calc unread (log ++ more) ((read.map LogEntry.id).foldl max c)
      = unread log ((read.map LogEntry.id).foldl max c) ++ unread more ((read.map LogEntry.id).foldl max c) :=
        List.filter_append _ _
    _ = (unread log c).drop read.length ++ more := by
        rw [unread_after_batch hbefore hread]
        exact congrArg _ (List.filter_eq_self.2 fun e he => decide_eq_true (hahead e he))

namespace Feedback

variable (cfg : ConsumerConfig)

theorem batch_first (f : Feedback) (p : Pull) : (f.batch cfg p).map Prod.snd <+: f.left := by
  calc (f.batch cfg p).map Prod.snd
      <+: f.left.take cfg.batchSize.toNat := map_snd_zip_first p.sources _
    _ <+: f.left := List.take_prefix _ _

/-- a read finds an entry if one is left -/
theorem batch_ne_nil {f : Feedback} {p : Pull} (hsize : cfg.batchSize ≠ 0) (hsources : p.sources ≠ [])
    (hleft : f.left ≠ []) : 0 < (f.batch cfg p).length := by
  have hcount : cfg.batchSize.toNat ≠ 0 := fun h => hsize (UInt64.toNat_inj.1 h)
  have hone := List.length_pos_iff.2 hsources
  have hsome := List.length_pos_iff.2 hleft
  rw [batch, List.length_zip, List.length_take]
  omega

theorem next_lines (f : Feedback) (p : Pull) :
    (f.next cfg p).replica.updates.lines = f.consumer.replica.updates.lines ++ f.written cfg p ∧
      (f.written cfg p).length ≤ ((f.batch cfg p).map Prod.snd).countP LogEntry.isUpsert ∧
      ∀ line ∈ f.written cfg p, line.IsAnswer := by
  obtain ⟨lines, hlines, hfew, hanswers⟩ := f.consumer.replica.processEach_lines (f.batch cfg p)
  have hnext : (f.next cfg p).replica.updates.lines = f.consumer.replica.updates.lines ++ lines :=
    (congrArg Log.lines (f.consumer.replica.processBatch_parts _).2.1).trans hlines
  have hwritten : f.written cfg p = lines := by rw [written, hnext, List.drop_left]
  rw [hwritten]
  exact ⟨hnext, hfew, hanswers⟩

/-- what a round adds are deltas, at most one for each upsert that was read -/
theorem added_deltas (f : Feedback) (p : Pull) :
    (∀ e ∈ f.added cfg p, e.IsDelta) ∧
      (f.added cfg p).length ≤ ((f.batch cfg p).map Prod.snd).countP LogEntry.isUpsert := by
  obtain ⟨-, hfew, hanswers⟩ := f.next_lines cfg p
  refine ⟨fun e he => ?_, List.length_mapIdx.trans_le hfew⟩
  obtain ⟨i, hi, rfl⟩ := List.mem_mapIdx.1 he
  exact (hanswers _ (List.getElem_mem hi)).1

/-- **One read** takes the first entries off what is left, and adds the deltas that answer them. -/
theorem pull_drained {f : Feedback} {p : Pull} (hg : ∀ g ∈ p.sources, g.KeepsCursor)
    (hlog : (f.pull cfg p).stream.Pairwise fun a b => a.id < b.id) :
    Drained f (f.pull cfg p) ((f.batch cfg p).map Prod.snd) (f.added cfg p) := by
  obtain ⟨hdeltas, hfew⟩ := f.added_deltas cfg p
  have hprefix := f.batch_first cfg p
  have hparts := f.consumer.replica.processBatch_parts (f.batch cfg p)
  have hcursor : (f.pull cfg p).cursor = (((f.batch cfg p).map Prod.snd).map LogEntry.id).foldl max f.cursor := by
    have hkeeps : ∀ q ∈ f.batch cfg p, q.1.KeepsCursor := fun q hq => hg q.1 (List.of_mem_zip hq).1
    rw [List.map_map]
    exact (congrArg Store.cursor hparts.1).trans (Replica.processEach_cursor hkeeps _)
  refine ⟨rfl, hdeltas, hfew, ?_, hcursor, ?_⟩
  · have hleft : (f.pull cfg p).left = f.left.drop ((f.batch cfg p).map Prod.snd).length ++ f.added cfg p := by
      rw [left, hcursor]
      exact unread_append hlog hprefix (hfew.trans List.countP_le_length)
    obtain ⟨rest, hsplit⟩ := hprefix
    rw [hleft, ← hsplit, List.drop_left, List.append_assoc]
  · rw [List.length_map]
    exact hparts.2.2.trans (Replica.processEach_received _ _)

/-- **A run** reads and writes as its reads do, and every read finds an entry as long as one is left. -/
theorem run_drained {f : Feedback} {pulls : List Pull} (hg : ∀ p ∈ pulls, ∀ g ∈ p.sources, g.KeepsCursor)
    (hlog : (f.run cfg pulls).stream.Pairwise fun a b => a.id < b.id) :
    ∃ batch deltas, Drained f (f.run cfg pulls) batch deltas ∧
      (cfg.batchSize ≠ 0 → (∀ p ∈ pulls, p.sources ≠ []) →
        (f.run cfg pulls).left = [] ∨ pulls.length ≤ batch.length) := by
  induction pulls using List.reverseRecOn with
  | nil => exact ⟨[], [], Drained.refl f, fun _ _ => Or.inr le_rfl⟩
  | append_singleton pulls p ih =>
    rw [run_snoc] at hlog ⊢
    rw [List.forall_mem_append] at hg
    have hone := pull_drained cfg (hg.2 p (by simp)) hlog
    rw [hone.stream] at hlog
    obtain ⟨batch, deltas, hdrained, hprogress⟩ := ih hg.1 (List.pairwise_append.1 hlog).1
    refine ⟨_, _, hdrained.trans hone, fun hsize hsources => ?_⟩
    rw [List.forall_mem_append] at hsources
    by_cases hleft : (f.run cfg pulls).left = []
    · -- nothing is left to read, so nothing is written either
      have hbatch : ((f.run cfg pulls).batch cfg p).map Prod.snd = [] :=
        List.prefix_nil.1 (hleft ▸ batch_first cfg _ p)
      have hadded : (f.run cfg pulls).added cfg p = [] := by
        have hfew := hone.few
        rw [hbatch] at hfew
        exact List.length_eq_zero_iff.1 (Nat.le_zero.1 hfew)
      have hbalance := hone.balance
      rw [hbatch, hleft, hadded] at hbalance
      exact Or.inl hbalance.symm
    · have hread := batch_ne_nil cfg hsize (hsources.2 p (by simp)) hleft
      have hlength := (hprogress hsize hsources.1).resolve_left hleft
      right
      rw [List.length_append, List.length_append, List.length_map, List.length_singleton]
      omega

/-- what a run adds to the stream and reads, and where it ends after enough reads -/
theorem run_ends {f : Feedback} {pulls : List Pull} (hg : ∀ p ∈ pulls, ∀ g ∈ p.sources, g.KeepsCursor)
    (hlog : (f.run cfg pulls).stream.Pairwise fun a b => a.id < b.id) :
    let f' := f.run cfg pulls
    let originals := accepted f.cursor f.stream
    let upserts := originals.countP LogEntry.isUpsert
    (∃ deltas, f'.stream = f.stream ++ deltas ∧ deltas.length ≤ upserts ∧
        ∀ e ∈ deltas, ∀ (g : Registry) (r : Replica), (r.process g e).updates = r.updates) ∧
      f'.received ≤ f.received + (originals.length + upserts) ∧
      (cfg.batchSize ≠ 0 → (∀ p ∈ pulls, p.sources ≠ []) → originals.length + upserts ≤ pulls.length →
        f'.left = [] ∧ f'.cursor = (f'.stream.map LogEntry.id).foldl max f.cursor) := by
  intro f' originals upserts
  obtain ⟨batch, deltas, hdrained, hprogress⟩ := run_drained cfg hg hlog
  have hleft : f.left = originals := by
    rw [hdrained.stream] at hlog
    exact (accepted_eq_unread (List.pairwise_append.1 hlog).1 f.cursor).symm
  have hfew := hdrained.few_upserts
  have hlength : f.left.length + deltas.length = batch.length + f'.left.length := hdrained.length_balance
  rw [hleft] at hfew hlength
  refine ⟨⟨deltas, hdrained.stream, hfew, fun e he g r => ?_⟩, ?_, ?_⟩
  · exact Replica.process_updates_of_isDelta (hdrained.inert e he) g r
  · rw [hdrained.received]
    omega
  · intro hsize hsources hmany
    have hend : f'.left = [] := by
      rcases hprogress hsize hsources with hend | hread
      · exact hend
      · exact List.length_eq_zero_iff.1 (by omega)
    exact ⟨hend, hdrained.cursor_of_left_nil hend⟩

end Feedback

/-! ## A consumer and its own update stream -/

/-- the round of a consumer after it has read its own update stream, with these sources and at this time -/
def Consumer.readOwn (cfg : ConsumerConfig) (c : Consumer) (read : Registry × Nat) : Consumer :=
  (c.afterRead cfg read.1
    (.ok (c.replica.updates.readAfter read.2 c.replica.store.cursor cfg.batchSize.toNat))).1

namespace Feedback

variable (cfg : ConsumerConfig)

/-- the stream is the consumer's own, and all of it is seen from a time on -/
structure Own (now : Nat) (f : Feedback) : Prop where
  stream : f.stream = f.consumer.replica.updates.entries
  seen : ∀ line ∈ f.consumer.replica.updates.lines, line.since ≤ now

theorem Own.eq {f : Feedback} {now : Nat} (h : f.Own now) : f = ⟨f.consumer, f.consumer.replica.updates.entries⟩ := by
  rw [← h.stream]

/-- the ids that the consumer's stream gives make it the stream that is read -/
theorem pull_own {f : Feedback} {now : Nat} (h : f.Own now) (sources : List Registry) :
    ∃ ids, (f.pull cfg ⟨sources, ids⟩).Own now := by
  let ids (i : Nat) : EntryId := (((f.written cfg ⟨sources, fun _ => .zero⟩)[i]?).map (·.entry.id)).getD .zero
  have hadded : f.added cfg ⟨sources, ids⟩ = (f.written cfg ⟨sources, ids⟩).map LogLine.entry := by
    refine List.ext_getElem (by simp [added]) fun i hi hi' => ?_
    have hid : ids i = ((f.written cfg ⟨sources, ids⟩).map LogLine.entry)[i].id := by
      have hi'' : i < (f.written cfg ⟨sources, ids⟩).length := by simpa using hi'
      rw [List.getElem_map]
      exact congrArg (fun o : Option LogLine => (o.map (·.entry.id)).getD .zero) (List.getElem?_eq_getElem hi'')
    simp only [added, List.getElem_mapIdx, hid, List.getElem_map]
  obtain ⟨hlines, -, hanswers⟩ := f.next_lines cfg ⟨sources, ids⟩
  refine ⟨ids, ?_, ?_⟩
  · show f.stream ++ f.added cfg ⟨sources, ids⟩ = (f.next cfg ⟨sources, ids⟩).replica.updates.lines.map LogLine.entry
    rw [h.stream, hadded, hlines, List.map_append]
    rfl
  · intro line hline
    rw [pull, hlines] at hline
    rcases List.mem_append.1 hline with hline | hline
    · exact h.seen line hline
    · rw [(hanswers line hline).2]
      exact Nat.zero_le now

/-- a read with sources that answer alike is a round of the consumer after it has read its own stream -/
theorem pull_consumer {f : Feedback} {now time : Nat} (h : f.Own now) (htime : now ≤ time) (g : Registry)
    (ids : Nat → EntryId) :
    (f.pull cfg ⟨List.replicate cfg.batchSize.toNat g, ids⟩).consumer = f.consumer.readOwn cfg (g, time) := by
  have hvisible : f.consumer.replica.updates.visible time = f.stream := by
    rw [Log.visible, List.filter_eq_self.2 fun line hline => decide_eq_true ((h.seen line hline).trans htime), h.stream,
      Log.entries]
  have hbatch : f.batch cfg ⟨List.replicate cfg.batchSize.toNat g, ids⟩ =
      (f.left.take cfg.batchSize.toNat).map (g, ·) := by
    refine List.ext_getElem ?_ fun i hi hi' => ?_
    · simp [batch]
    · simp [batch]
  rw [Consumer.readOwn, Consumer.afterRead_eq, Log.readAfter, hvisible, pull, next, hbatch]
  rfl

/-- **A consumer that reads its own stream** does what the reads of some run do. -/
theorem run_own {f : Feedback} {now : Nat} (h : f.Own now) {reads : List (Registry × Nat)}
    (hreads : ∀ read ∈ reads, now ≤ read.2) :
    ∃ pulls : List Pull,
      pulls.map Pull.sources = reads.map (fun read => List.replicate cfg.batchSize.toNat read.1) ∧
        (f.run cfg pulls).Own now ∧ (f.run cfg pulls).consumer = reads.foldl (Consumer.readOwn cfg) f.consumer := by
  induction reads using List.reverseRecOn with
  | nil => exact ⟨[], rfl, h, rfl⟩
  | append_singleton reads read ih =>
    rw [List.forall_mem_append] at hreads
    obtain ⟨pulls, hpulls, hown, hconsumer⟩ := ih hreads.1
    obtain ⟨ids, hids⟩ := pull_own cfg hown (List.replicate cfg.batchSize.toNat read.1)
    refine ⟨pulls ++ [⟨List.replicate cfg.batchSize.toNat read.1, ids⟩], ?_, ?_, ?_⟩
    · rw [List.map_append, hpulls, List.map_append]
      rfl
    · rw [run_snoc]
      exact hids
    · rw [run_snoc, pull_consumer cfg hown (hreads.2 read (by simp)), hconsumer, List.foldl_append]
      rfl

end Feedback

/-- **The feedback loop dies out.** The stream gives rising ids, to what is there at first and to what is written to it
later; reads take any number of entries, and sources that leave the cursor alone say anything. Then at most one delta is
ever added for each upsert that the consumer was to accept at first, and no delta makes any replica write anything. The
entries that are ever read are bounded by the entries and the upserts to be accepted at first; and after as many reads
with room for an entry the consumer is at the end of the stream, its cursor at the greatest id of all. So it is where
the stream is the consumer's own: the deltas are those that it has written itself, and its rounds come to the end. -/
theorem feedback_dies_out (cfg : ConsumerConfig) (f : Feedback) (pulls : List Pull)
    (hg : ∀ p ∈ pulls, ∀ g ∈ p.sources, g.KeepsCursor)
    (hlog : (f.run cfg pulls).stream.Pairwise fun a b => a.id < b.id) :
    let f' := f.run cfg pulls
    let originals := accepted f.cursor f.stream
    let upserts := originals.countP LogEntry.isUpsert
    (∃ deltas, f'.stream = f.stream ++ deltas ∧ deltas.length ≤ upserts ∧
        ∀ e ∈ deltas, ∀ (g : Registry) (r : Replica), (r.process g e).updates = r.updates) ∧
      f'.received ≤ f.received + (originals.length + upserts) ∧
      (cfg.batchSize ≠ 0 → (∀ p ∈ pulls, p.sources ≠ []) → originals.length + upserts ≤ pulls.length →
        f'.left = [] ∧ f'.cursor = (f'.stream.map LogEntry.id).foldl max f.cursor) ∧
      ∀ (now : Nat) (reads : List (Registry × Nat)), f.Own now →
        (∀ read ∈ reads, read.1.KeepsCursor ∧ now ≤ read.2) →
          let c' := reads.foldl (Consumer.readOwn cfg) f.consumer
          let stream := c'.replica.updates.entries
          (stream.Pairwise fun a b => a.id < b.id) →
            (∃ deltas, stream = f.stream ++ deltas ∧ deltas.length ≤ upserts ∧
                ∀ e ∈ deltas, ∀ (g : Registry) (r : Replica), (r.process g e).updates = r.updates) ∧
              c'.replica.counters.received ≤ f.received + (originals.length + upserts) ∧
              (cfg.batchSize ≠ 0 → originals.length + upserts ≤ reads.length →
                unread stream c'.replica.store.cursor = [] ∧
                  c'.replica.store.cursor = (stream.map LogEntry.id).foldl max f.cursor) := by
  intro f' originals upserts
  obtain ⟨hdeltas, hreceived, hend⟩ := Feedback.run_ends cfg hg hlog
  refine ⟨hdeltas, hreceived, hend, fun now reads hown hreads => ?_⟩
  intro c' stream hrising
  obtain ⟨pulls', hsources, hown', hconsumer⟩ := Feedback.run_own cfg hown fun read hread => (hreads read hread).2
  have hrun : f.run cfg pulls' = ⟨c', stream⟩ := by rw [hown'.eq, hconsumer]
  have hsource : ∀ p ∈ pulls', ∃ read ∈ reads, List.replicate cfg.batchSize.toNat read.1 = p.sources := by
    intro p hp
    exact List.mem_map.1 (hsources ▸ List.mem_map_of_mem hp)
  have hg' : ∀ p ∈ pulls', ∀ g ∈ p.sources, g.KeepsCursor := by
    intro p hp g hgp
    obtain ⟨read, hread, hp⟩ := hsource p hp
    rw [← hp] at hgp
    rw [List.eq_of_mem_replicate hgp]
    exact (hreads read hread).1
  have hends := Feedback.run_ends cfg hg' (by rwa [hrun])
  rw [hrun] at hends
  obtain ⟨hdeltas', hreceived', hend'⟩ := hends
  refine ⟨hdeltas', hreceived', fun hsize hmany => hend' hsize (fun p hp => ?_) ?_⟩
  · obtain ⟨read, -, hp⟩ := hsource p hp
    have hcount : cfg.batchSize.toNat ≠ 0 := fun h => hsize (UInt64.toNat_inj.1 h)
    rw [← hp, ne_eq, List.replicate_eq_nil_iff]
    exact hcount
  · rwa [← List.length_map Pull.sources, hsources, List.length_map]

/-- the reads of `stretch`, two entries at most with each, until nothing can be left -/
def twoByTwo : List Pull :=
  (List.range 6).map fun k => ⟨List.replicate 2 (answering ⟨.null, 1, 2⟩), fun i => ⟨.ofNat (10 + k), .ofNat i⟩⟩

/-- an order is placed and removed and placed anew, so two deltas come back, and the loop ends behind them; the same
in the consumer's own stream -/
theorem feedback_dies_out_stretch :
    let f : Feedback := ⟨⟨{}, 0⟩, stretch⟩
    let f' := f.run {} twoByTwo
    let own : Feedback := ⟨⟨{ updates := { lines := stretch.map (⟨·, 0⟩) } }, 0⟩, stretch⟩
    let c' := (List.replicate 6 (answering ⟨.null, 1, 2⟩, 0)).foldl (Consumer.readOwn {}) own.consumer
    (f'.stream.Pairwise fun a b => a.id < b.id) ∧ (accepted f.cursor f.stream).countP LogEntry.isUpsert = 2 ∧
      f'.stream.length = 6 ∧ f'.left = [] ∧ f'.cursor = (f'.stream.map LogEntry.id).foldl max f.cursor ∧
      own.Own 0 ∧ c'.replica.updates.lines.length = 6 ∧
      unread c'.replica.updates.entries c'.replica.store.cursor = [] := by
  intro f f' own c'
  obtain ⟨hlog, hsix⟩ : (f'.stream.Pairwise fun a b => a.id < b.id) ∧ f'.stream.length = 6 := by decide +kernel
  have hfour : (accepted f.cursor f.stream).length = 4 := by decide +kernel
  have htwo : (accepted f.cursor f.stream).countP LogEntry.isUpsert = 2 := by decide +kernel
  have hquiet := (answering_quiet ⟨.null, 1, 2⟩).keepsCursor
  have hg : ∀ p ∈ twoByTwo, ∀ g ∈ p.sources, g.KeepsCursor := by
    intro p hp g hg
    obtain ⟨k, -, rfl⟩ := List.mem_map.1 hp
    rw [List.eq_of_mem_replicate hg]
    exact hquiet
  have hsources : ∀ p ∈ twoByTwo, p.sources ≠ [] := by
    intro p hp
    obtain ⟨k, -, rfl⟩ := List.mem_map.1 hp
    exact List.cons_ne_nil _ _
  obtain ⟨-, -, hend, -⟩ := feedback_dies_out {} f twoByTwo hg hlog
  obtain ⟨hleft, hcursor⟩ := hend (by decide) hsources (by rw [hfour, htwo]; decide)
  have hown : own.Own 0 := ⟨rfl, by decide⟩
  obtain ⟨hrising, hsix'⟩ : (c'.replica.updates.entries.Pairwise fun a b => a.id < b.id) ∧
      c'.replica.updates.lines.length = 6 := by decide +kernel
  refine ⟨hlog, htwo, hsix, hleft, hcursor, hown, hsix', ?_⟩
  subst c'
  obtain ⟨-, -, -, hloop⟩ := feedback_dies_out {} own [] nofun (by decide)
  obtain ⟨-, -, hend'⟩ := hloop 0 (List.replicate 6 (answering ⟨.null, 1, 2⟩, 0)) hown
    (fun read hread => by rw [List.eq_of_mem_replicate hread]; exact ⟨hquiet, le_rfl⟩) hrising
  exact (hend' (by decide) (by decide +kernel)).1

end ReplicatedOrders
