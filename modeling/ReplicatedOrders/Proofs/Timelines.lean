/-
Timelines: every timeline of a consumer is a run of its loop, so what holds of all runs holds of it.

A timeline reads the consumer's own update stream, with the same sources throughout, and lists its reads as events. What
it meets on the way is a list of arrivals: the replies to its reads, and the signal at the end. A timeline that has no
round left ends as if the signal had come.
- `Records`: which events list which reads.
- `Found`: what the reads find in a stream that the consumer adds to; `Found.entries_unread`: the next entries of it.
- `Timeline.Passes`: from one timeline to a later one.
- `Timeline.continues_reply`, `Timeline.continues_block`, `Timeline.continues_round`: one round of a timeline.
- `Timeline.rounds_passes`: so many rounds.
- `run_batches`: every entry once, in order, in whole batches.
-/
import ReplicatedOrders.Proofs.Batches

namespace ReplicatedOrders

/-! ## Reads and events -/

/-- what a read came to -/
def Read.result (x : Read) : ReadResult :=
  match x.reply with
  | none => .shutdown
  | some (.ok steps) => .entries (steps.map fun p => p.2.id)
  | some (.error _) => .failed

/-- the events list the reads in their order; a read that the signal interrupts need not be listed -/
inductive Records : List Read → List ReadEvent → Prop where
  | nil : Records [] []
  | listed {x : Read} {reads : List Read} {event : ReadEvent} {events : List ReadEvent} (hafter : event.after = x.after)
    (hresult : event.result = x.result) (rest : Records reads events) : Records (x :: reads) (event :: events)
  | unlisted {x : Read} {reads : List Read} {events : List ReadEvent} (hreply : x.reply = none)
    (rest : Records reads events) : Records (x :: reads) events

theorem Records.append {reads reads' : List Read} {events events' : List ReadEvent} (h : Records reads events)
    (h' : Records reads' events') : Records (reads ++ reads') (events ++ events') := by
  induction h with
  | nil => exact h'
  | listed hafter hresult _ ih => exact .listed hafter hresult ih
  | unlisted hreply _ ih => exact .unlisted hreply ih

/-- the entries that a read brings are those that it finds in the stream of the replica at some time from `now` on, and
they are applied with the sources of the scenario -/
def Read.Finds (w : Scenario) (now : Nat) (r : Replica) (x : Read) : Prop :=
  ∀ steps, x.reply = some (.ok steps) → ∃ time, now ≤ time ∧
    steps = (r.updates.readAfter time x.after w.config.batchSize.toNat).map (w.registry, ·)

/-- each read finds its entries in the stream as the reads before it have left it -/
inductive Found (w : Scenario) (now : Nat) : Replica → List Read → Prop where
  | nil (r : Replica) : Found w now r []
  | read {r : Replica} {x : Read} {reads : List Read} (hx : x.Finds w now r)
    (rest : Found w now (r.processBatch x.steps) reads) : Found w now r (x :: reads)

/-- a batch only adds to the update stream -/
theorem Replica.lines_processBatch (r : Replica) (steps : List (Registry × LogEntry)) :
    r.updates.lines <+: (r.processBatch steps).updates.lines := by
  obtain ⟨lines, hlines, -, -⟩ := r.processEach_lines steps
  rw [(r.processBatch_parts steps).2.1, hlines]
  exact List.prefix_append _ _

variable {w : Scenario} {now now' : Nat} {r : Replica} {x : Read} {reads reads' : List Read}

namespace Read.Finds

theorem earlier (h : x.Finds w now r) (hnow : now' ≤ now) : x.Finds w now' r := by
  intro steps hreply
  obtain ⟨time, htime, hsteps⟩ := h steps hreply
  exact ⟨time, hnow.trans htime, hsteps⟩

/-- a read brings what it finds, or nothing -/
theorem steps_cases (h : x.Finds w now r) :
    x.steps = [] ∨ ∃ time, now ≤ time ∧
      x.steps = (r.updates.readAfter time x.after w.config.batchSize.toNat).map (w.registry, ·) := by
  cases hreply : x.reply with
  | none => exact Or.inl (by rw [steps, hreply]; rfl)
  | some d =>
    have hsteps : x.steps = d.steps := by rw [steps, hreply]; rfl
    rw [hsteps]
    cases d with
    | error cause => exact Or.inl rfl
    | ok found => exact Or.inr (h found hreply)

theorem keepsCursor (h : x.Finds w now r) (hg : w.registry.KeepsCursor) : ∀ p ∈ x.steps, p.1.KeepsCursor := by
  intro p hp
  rcases h.steps_cases with hsteps | ⟨time, -, hsteps⟩
  · rw [hsteps] at hp
    cases hp
  · rw [hsteps] at hp
    obtain ⟨e, -, rfl⟩ := List.mem_map.1 hp
    exact hg

/-- where every line is seen, a read finds the next entries, also of what the stream becomes later -/
theorem entries_unread (h : x.Finds w now r) {stream : List LogLine} (hstream : r.updates.lines <+: stream)
    (hseen : ∀ line ∈ stream, line.since ≤ now) : x.entries <+: unread (stream.map LogLine.entry) x.after := by
  rcases h.steps_cases with hsteps | ⟨time, htime, hsteps⟩
  · rw [entries, hsteps]
    exact List.nil_prefix
  · have hvisible : r.updates.visible time = r.updates.lines.map LogLine.entry := by
      rw [Log.visible, List.filter_eq_self.2]
      exact fun line hline => decide_eq_true ((hseen line (hstream.subset hline)).trans htime)
    have hentries : x.entries = (unread (r.updates.lines.map LogLine.entry) x.after).take w.config.batchSize.toNat := by
      rw [entries, hsteps, List.map_map, Log.readAfter, hvisible]
      exact List.map_id _
    rw [hentries]
    exact (List.take_prefix _ _).trans ((hstream.map LogLine.entry).filter _)

end Read.Finds

namespace Found

theorem earlier (h : Found w now r reads) (hnow : now' ≤ now) : Found w now' r reads := by
  induction h with
  | nil r => exact .nil r
  | read hx _ ih => exact .read (hx.earlier hnow) ih

theorem append (h : Found w now r reads) (h' : Found w now (r.processBatch (reads.flatMap Read.steps)) reads') :
    Found w now r (reads ++ reads') := by
  induction h with
  | nil r => rwa [List.flatMap_nil, Replica.processBatch_nil] at h'
  | read hx _ ih =>
    rw [List.flatMap_cons, ← Replica.processBatch_append] at h'
    exact .read hx (ih h')

theorem keepsCursor (h : Found w now r reads) (hg : w.registry.KeepsCursor) :
    ∀ x ∈ reads, ∀ p ∈ x.steps, p.1.KeepsCursor := by
  induction h with
  | nil r => exact nofun
  | read hx _ ih => exact List.forall_mem_cons.2 ⟨hx.keepsCursor hg, ih⟩

/-- Where every line is seen, reads find the next entries of what the stream becomes. -/
theorem entries_unread (h : Found w now r reads) {stream : List LogLine}
    (hstream : (r.processBatch (reads.flatMap Read.steps)).updates.lines <+: stream)
    (hseen : ∀ line ∈ stream, line.since ≤ now) :
    ∀ x ∈ reads, x.entries <+: unread (stream.map LogLine.entry) x.after := by
  induction h with
  | nil r => exact nofun
  | @read r x reads hx _ ih =>
    have hfirst := (r.lines_processBatch ((x :: reads).flatMap Read.steps)).trans hstream
    rw [List.flatMap_cons, ← Replica.processBatch_append] at hstream
    exact List.forall_mem_cons.2 ⟨hx.entries_unread hfirst hseen, ih hstream⟩

end Found

/-! ## The signal -/

namespace Shutdown

/-- the signal was sent, where the timeline is -/
def Sent (s : Shutdown) (t : Timeline) : Prop :=
  match s with
  | atOnce => True
  | timed ms => Wait.lasting ms ≤ t.now
  | idle n => n ≤ t.emptyReads

theorem interruption?_le {s : Shutdown} {time sent : Nat} (h : s.interruption? time = some sent) : sent ≤ time := by
  cases s with
  | atOnce =>
    obtain rfl := Option.some.inj h
    exact Nat.zero_le time
  | timed ms =>
    obtain ⟨hlt, h⟩ := Option.ite_none_right_eq_some.1 h
    obtain rfl := Option.some.inj h
    exact hlt.le
  | idle n => cases h

theorem sent_of_interruption {s : Shutdown} {time sent : Nat} (h : s.interruption? time = some sent) {t : Timeline}
    (hnow : sent ≤ t.now) : s.Sent t := by
  cases s with
  | atOnce => trivial
  | timed ms =>
    obtain ⟨-, h⟩ := Option.ite_none_right_eq_some.1 h
    obtain rfl := Option.some.inj h
    exact hnow
  | idle n => cases h

theorem sent_of_isSent {s : Shutdown} {t : Timeline} (h : s.isSent t.now = true) : s.Sent t := by
  obtain ⟨sent, hsent⟩ := Option.isSome_iff_exists.1 h
  exact sent_of_interruption hsent (interruption?_le hsent)

theorem sent_of_isDue {s : Shutdown} {t : Timeline} (h : s.isDue t.emptyReads = true) : s.Sent t := by
  cases s with
  | idle n =>
    have hdue : n ≤ t.emptyReads := of_decide_eq_true h
    exact hdue
  | atOnce | timed ms => cases h

end Shutdown

/-! ## Timelines -/

namespace Timeline

/-- From one timeline to a later one, and to this end or none: the arrivals bring every run of the loop from the one
consumer to the other one, these are the reads that it issues, and the events list them. -/
structure Passes (w : Scenario) (t t' : Timeline) (ended : Option Ended) (arrivals : List Arrival) (reads : List Read)
    (events : List ReadEvent) : Prop where
  run : ∀ u : Consumption, u.consumer = t.consumer → u.ended = none →
    u.run w.config arrivals = ⟨t'.consumer, u.reads ++ reads, ended⟩
  replica : t'.consumer.replica = t.consumer.replica.processBatch (reads.flatMap Read.steps)
  found : Found w t.now t.consumer.replica reads
  listed : t'.events = events.reverse ++ t.events
  records : Records reads events
  now : t.now ≤ t'.now

variable {t t' t'' : Timeline}

namespace Passes

variable {ended : Option Ended} {arrivals arrivals' : List Arrival} {events events' : List ReadEvent}

theorem trans (h : Passes w t t' none arrivals reads events) (h' : Passes w t' t'' ended arrivals' reads' events') :
    Passes w t t'' ended (arrivals ++ arrivals') (reads ++ reads') (events ++ events') where
  run u hu hended := by
    rw [Consumption.run_append, h.run u hu hended, h'.run _ rfl rfl, List.append_assoc]
  replica := by rw [h'.replica, h.replica, Replica.processBatch_append, List.flatMap_append]
  found := h.found.append (h.replica ▸ h'.found.earlier h.now)
  listed := by rw [h'.listed, h.listed, List.reverse_append, List.append_assoc]
  records := h.records.append h'.records
  now := h.now.trans h'.now

/-- time may have passed before -/
theorem after_wait {s : Timeline} (h : Passes w t t' ended arrivals reads events) (hconsumer : t.consumer = s.consumer)
    (hevents : t.events = s.events) (hnow : s.now ≤ t.now) : Passes w s t' ended arrivals reads events where
  run := hconsumer ▸ h.run
  replica := hconsumer ▸ h.replica
  found := (hconsumer ▸ h.found).earlier hnow
  listed := hevents ▸ h.listed
  records := h.records
  now := hnow.trans h.now

end Passes

/-- the signal comes while no read is under way -/
theorem passes_signal (hconsumer : t'.consumer = t.consumer) (hevents : t'.events = t.events) (hnow : t.now ≤ t'.now) :
    Passes w t t' (some .stopped) [.signal] [] [] where
  run u hu hended := by
    rw [Consumption.run_singleton, Consumption.step_signal w.config hended, List.append_nil,
      hconsumer, ← hu]
  replica := by rw [hconsumer, List.flatMap_nil, Replica.processBatch_nil]
  found := .nil _
  listed := hevents
  records := .nil
  now := hnow

/-- the signal comes while a read is under way, which may be listed -/
theorem passes_interruption {events : List ReadEvent} (hconsumer : t'.consumer = t.consumer)
    (hlisted : t'.events = events.reverse ++ t.events) (hrecords : Records [⟨t.cursor, none⟩] events)
    (hnow : t.now ≤ t'.now) :
    Passes w t t' (some .stopped) [.interruption] [⟨t.cursor, none⟩] events where
  run u hu hended := by
    have hcursor : u.cursor = t.cursor := congrArg (·.replica.store.cursor) hu
    rw [Consumption.run_singleton, Consumption.step_interruption w.config hended, hcursor,
      hconsumer, ← hu]
  replica := by
    rw [hconsumer]
    exact (Replica.processBatch_nil _).symm
  found := .read nofun (.nil _)
  listed := hlisted
  records := hrecords
  now := hnow

/-- a reply comes to a read that started at a time -/
theorem passes_reply {d : Delivery} {c : Consumer} {next : Next} {time : Nat}
    (hafter : t.consumer.afterDelivery w.config d = (c, next))
    (hfinds : (⟨t.cursor, some d⟩ : Read).Finds w t.now t.consumer.replica) (hconsumer : t'.consumer = c)
    (hevents : t'.events = (t.list time (Read.result ⟨t.cursor, some d⟩)).events) (hnow : t.now ≤ t'.now) :
    Passes w t t' next.ended? [.reply d] [⟨t.cursor, some d⟩]
      [⟨time, t.cursor, Read.result ⟨t.cursor, some d⟩⟩] where
  run u hu hended := by
    have hcursor : u.cursor = t.cursor := congrArg (·.replica.store.cursor) hu
    rw [Consumption.run_singleton, Consumption.step_reply w.config hended, hcursor, hu, hafter,
      hconsumer]
  replica := by
    have hreplica : c.replica = t.consumer.replica.processBatch d.steps := by
      rw [← Consumer.afterDelivery_replica w.config, hafter]
    rw [hconsumer, hreplica, List.flatMap_singleton]
    rfl
  found := .read hfinds (.nil _)
  listed := hevents
  records := .listed rfl rfl .nil
  now := hnow

/-- What becomes of a timeline is a run of the loop: it goes on after one read, and it stops only if the signal was
sent. -/
def Continues (w : Scenario) (t : Timeline) (p : Timeline × Option Ended) : Prop :=
  ∃ arrivals reads events, Passes w t p.1 p.2 arrivals reads events ∧ (p.2 = none → reads.length = 1) ∧
    (p.2 = some .stopped → w.shutdown.Sent p.1)

theorem Continues.after_wait {s : Timeline} {p : Timeline × Option Ended} (h : Continues w t p)
    (hconsumer : t.consumer = s.consumer) (hevents : t.events = s.events) (hnow : s.now ≤ t.now) : Continues w s p := by
  obtain ⟨arrivals, reads, events, hpasses, hends⟩ := h
  exact ⟨arrivals, reads, events, hpasses.after_wait hconsumer hevents hnow, hends⟩

/-- the round after a reply that is listed -/
theorem continues_reply (w : Scenario) (t : Timeline) (time : Nat) {b : Batch}
    (hfinds : ∀ es, b = .ok es → es = t.find w) :
    Continues w t
      ((t.list time (Read.result ⟨t.cursor, some (b.map fun es => es.map (w.registry, ·))⟩)).reply w b) := by
  have hread : (⟨t.cursor, some (b.map fun es => es.map (w.registry, ·))⟩ : Read).Finds w t.now
      t.consumer.replica := by
    intro steps hsteps
    cases b with
    | error cause => cases hsteps
    | ok es =>
      obtain rfl := hfinds es rfl
      obtain rfl := Except.ok.inj (Option.some.inj hsteps)
      exact ⟨t.now, le_rfl, rfl⟩
  have hconsumer : ∀ result, (t.list time result).consumer = t.consumer := fun _ => rfl
  rw [reply, Consumer.afterRead_eq, hconsumer]
  generalize b.map (fun es => es.map (w.registry, ·)) = d at hread ⊢
  cases hafter : t.consumer.afterDelivery w.config d with
  | mk c next =>
    cases next with
    | read => exact ⟨_, _, _, passes_reply hafter hread rfl rfl le_rfl, fun _ => rfl, nofun⟩
    | giveUp e => exact ⟨_, _, _, passes_reply hafter hread rfl rfl le_rfl, nofun, nofun⟩
    | pause ms => exact ⟨_, _, _, passes_reply hafter hread rfl rfl (Nat.le_add_right _ _), fun _ => rfl, nofun⟩
    | backoff ms =>
      dsimp only [wait]
      cases hsent : w.shutdown.interruption? _ with
      | none => exact ⟨_, _, _, passes_reply hafter hread rfl rfl (Nat.le_add_right _ _), fun _ => rfl, nofun⟩
      | some sent =>
        -- the signal ends the backoff
        have hfailed : Passes w t { t.list time _ with consumer := c } none _ _ _ :=
          passes_reply hafter hread rfl rfl le_rfl
        exact ⟨_, _, _, hfailed.trans (passes_signal rfl rfl (Nat.le_max_left _ _)), nofun,
          fun _ => Shutdown.sent_of_interruption hsent (Nat.le_max_right _ _)⟩

/-- the read brings what is found now -/
theorem continues_deliver (w : Scenario) (t : Timeline) (started : Nat) : Continues w t (t.deliver w started) := by
  have hids : Read.result ⟨t.cursor, some (.ok ((t.find w).map (w.registry, ·)))⟩ =
      .entries ((t.find w).map LogEntry.id) := congrArg ReadResult.entries List.map_map
  rw [deliver, ← hids]
  exact continues_reply w t started (b := .ok (t.find w)) fun es hes => (Except.ok.inj hes).symm

theorem continues_block (w : Scenario) (t : Timeline) : Continues w t (t.block w) := by
  unfold block
  split
  · next hdue =>
    exact ⟨_, _, _, passes_interruption rfl rfl (.listed rfl rfl .nil) le_rfl, nofun,
      fun _ => Shutdown.sent_of_isDue hdue⟩
  · dsimp only [wait]
    cases hsent : w.shutdown.interruption? _ with
    | some sent =>
      exact ⟨_, _, _, passes_interruption rfl rfl (.unlisted rfl .nil) (Nat.le_max_left _ _), nofun,
        fun _ => Shutdown.sent_of_interruption hsent (Nat.le_max_right _ _)⟩
    | none => exact (continues_deliver w _ t.now).after_wait rfl rfl (Nat.le_add_right _ _)

/-- **One round of a timeline is one of the loop.** -/
theorem continues_round (w : Scenario) (t : Timeline) : Continues w t (t.round w) := by
  unfold round
  split
  · next hsent => exact ⟨_, _, _, passes_signal rfl rfl le_rfl, nofun, fun _ => Shutdown.sent_of_isSent hsent⟩
  · dsimp only
    split
    · -- the read fails
      have hfailed := continues_reply w { t with readFaults := t.readFaults.tail } t.now
        (b := .error Log.readFault) nofun
      exact hfailed.after_wait rfl rfl le_rfl
    · split
      · exact (continues_block w _).after_wait rfl rfl le_rfl
      · exact (continues_deliver w _ t.now).after_wait rfl rfl le_rfl

/-- **Every timeline is a run of the loop.** It stops only if the signal was sent, or after as many reads as it may
have. -/
theorem rounds_passes (w : Scenario) (t : Timeline) (n : Nat) :
    ∃ arrivals reads events, Passes w t (t.rounds w n).1 (some (t.rounds w n).2) arrivals reads events ∧
      ((t.rounds w n).2 = .stopped → w.shutdown.Sent (t.rounds w n).1 ∨ reads.length = n) := by
  induction n generalizing t with
  | zero => exact ⟨_, _, _, passes_signal rfl rfl le_rfl, fun _ => Or.inr rfl⟩
  | succ n ih =>
    obtain ⟨first, reads, events, hfirst, hone, hsent⟩ := continues_round w t
    unfold rounds
    generalize t.round w = p at hfirst hone hsent ⊢
    obtain ⟨t', ended⟩ := p
    cases ended with
    | some ended => exact ⟨_, _, _, hfirst, fun hstopped => Or.inl (hsent (congrArg some hstopped))⟩
    | none =>
      obtain ⟨rest, reads', events', hrest, hstop⟩ := ih t'
      refine ⟨_, _, _, hfirst.trans hrest, fun hstopped => (hstop hstopped).imp_right fun hlength => ?_⟩
      rw [List.length_append, hone rfl, hlength, Nat.add_comm]

end Timeline

/-- **Every entry once, in order, in whole batches.** Replies come, fail or stay away and the signal is sent at any
time. Then the replica is that of one batch of all entries read, and the run has handled every arrival, unless the
signal came or a read failed and the policy gave up. Where reads bring the next entries of a log whose ids rise, with
any payloads, any sources that leave the cursor alone and any appends that fail, they bring them without a gap, and each
asks for what follows the last entry read before it.

The consumer does so: each of its rounds and the rounds of any script are those of such a run, and so is every timeline,
with the reads that it lists. There each read finds its entries in the consumer's own stream, which without a gap are
those of the stream at the end if its ids rise and all are seen; and only the signal stops it early. -/
theorem run_batches (cfg : ConsumerConfig) (c : Consumer) :
    (∀ arrivals : List Arrival,
        let t := ({ consumer := c } : Consumption).run cfg arrivals
        t.consumer.replica = c.replica.processBatch t.steps ∧
          t.consumer.replica.store = (c.replica.processEach t.steps).store ∧
          t.consumer.replica.counters.received = c.replica.counters.received + t.steps.length ∧
          (∃ left, arrivals = t.replies.map Arrival.reply ++ left ∧ t.Explained cfg left) ∧
          ∀ log : List LogEntry, (log.Pairwise fun a b => a.id < b.id) →
            (∀ d : Delivery, .reply d ∈ arrivals → ∀ p ∈ d.steps, p.1.KeepsCursor) →
            (∀ x ∈ t.reads, x.entries <+: unread log x.after) → t.Gapless log c.replica.store.cursor) ∧
      (∀ (g : Registry) (b : Batch), c.afterRead cfg g b = c.afterDelivery cfg (b.map fun es => es.map (g, ·))) ∧
      (∀ (g : Registry) (bs : List Batch),
        let t := ({ consumer := c } : Consumption).run cfg (bs.map fun b => .reply (b.map fun es => es.map (g, ·)))
        c.rounds cfg g bs = (t.consumer, t.ended.bind Ended.error?)) ∧
      ∀ (w : Scenario) (u : Timeline) (n : Nat), w.config = cfg → u.consumer = c →
        ∃ (arrivals : List Arrival) (events : List ReadEvent),
          let t := ({ consumer := c } : Consumption).run cfg arrivals
          let u' := (u.rounds w n).1
          let stream := u'.consumer.replica.updates.lines
          t.consumer = u'.consumer ∧ t.ended = some (u.rounds w n).2 ∧
            ((u.rounds w n).2 = .stopped → w.shutdown.Sent u' ∨ t.reads.length = n) ∧
            u'.events = events.reverse ++ u.events ∧ Records t.reads events ∧ Found w u.now c.replica t.reads ∧
            (w.registry.KeepsCursor → ((stream.map LogLine.entry).Pairwise fun a b => a.id < b.id) →
              (∀ line ∈ stream, line.since ≤ u.now) → t.Gapless (stream.map LogLine.entry) c.replica.store.cursor) := by
  refine ⟨?_, fun g b => c.afterRead_eq cfg g b, ?_, ?_⟩
  · intro arrivals t
    have hinv : t.Inv cfg c.replica arrivals := Consumption.run_inv cfg c arrivals
    have hparts := c.replica.processBatch_parts t.steps
    refine ⟨hinv.replica, ?_, ?_, hinv.arrivals, fun log hlog hg hreads => ?_⟩
    · rw [hinv.replica, hparts.1]
    · rw [hinv.replica, hparts.2.2, Replica.processEach_received]
    · refine hinv.gapless hlog (fun x hx p hp => ?_) hreads
      cases hd : x.reply with
      | none =>
        rw [Read.steps, hd] at hp
        cases hp
      | some d =>
        rw [Read.steps, hd] at hp
        exact hg d (Consumption.reply_mem_arrivals hx hd) p hp
  · intro g bs
    exact Consumption.rounds_eq (t := { consumer := c }) rfl g bs
  · rintro w u n rfl rfl
    obtain ⟨arrivals, reads, events, hpasses, hstop⟩ := Timeline.rounds_passes w u n
    have hrun := hpasses.run { consumer := u.consumer } rfl rfl
    have hinv := Consumption.run_inv w.config u.consumer arrivals
    rw [hrun, List.nil_append] at hinv
    refine ⟨arrivals, events, ?_⟩
    rw [hrun, List.nil_append]
    refine ⟨rfl, rfl, hstop, hpasses.listed, hpasses.records, hpasses.found, fun hg hlog hseen => ?_⟩
    have hstream : (u.consumer.replica.processBatch (reads.flatMap Read.steps)).updates.lines <+:
        (u.rounds w n).1.consumer.replica.updates.lines := by rw [hpasses.replica]
    exact hinv.gapless hlog (hpasses.found.keepsCursor hg) (hpasses.found.entries_unread hstream hseen)

/-- an order is placed, an entry has no payload, the order is removed, and it is placed anew -/
def stretch : List LogEntry :=
  [.placing ⟨1, 0⟩, ⟨⟨2, 0⟩, none⟩, ⟨⟨3, 0⟩, some "\x7b\"orderHash\":\"a\",\"deleted\":true\x7d"⟩, .placing ⟨4, 0⟩]

/-- nothing, a batch of two entries with one lookup that fails, a failed read, a batch of one, and the signal -/
def interrupted : List Arrival :=
  [.reply (.ok []), .reply (.ok ((stretch.take 2).map (∅, ·))), .reply (.error Log.readFault),
    .reply (.ok [(answering ⟨.null, 1, 2⟩, ⟨⟨3, 0⟩, some "\x7b\"orderHash\":\"a\",\"deleted\":true\x7d"⟩)]),
    .interruption, .reply (.ok [(∅, .placing ⟨4, 0⟩)])]

/-- the same entries in the consumer's own stream: two batches with a failed read between them, a batch of the two
deltas that come back, and the signal with the read that finds nothing -/
theorem run_batches_interrupted :
    let cfg : ConsumerConfig := { batchSize := 2, policy := .retry 2 10 }
    let t := ({ consumer := ⟨{}, 0⟩ } : Consumption).run cfg interrupted
    let w : Scenario := { config := cfg, registry := answering ⟨.null, 1, 2⟩ }
    let own : Consumer := ⟨{ updates := { lines := stretch.map (⟨·, 0⟩) } }, 0⟩
    let u' := (Timeline.rounds w 10 { consumer := own, readFaults := [false, true] }).1
    (stretch.Pairwise fun a b => a.id < b.id) ∧ (∀ x ∈ t.reads, x.entries <+: unread stretch x.after) ∧
      t.Gapless stretch ⟨0, 0⟩ ∧
      t.reads.flatMap Read.entries = stretch.take 3 ∧ t.consumer.replica.counters.received = 3 ∧
      t.consumer.replica.store = (({} : Replica).processEach t.steps).store ∧
      (u'.events.reverse.map fun e => (e.after, e.result)) =
        [(⟨0, 0⟩, .entries [⟨1, 0⟩, ⟨2, 0⟩]), (⟨2, 0⟩, .failed), (⟨2, 0⟩, .entries [⟨3, 0⟩, ⟨4, 0⟩]),
          (⟨4, 0⟩, .entries [⟨5, 0⟩, ⟨6, 0⟩]), (⟨6, 0⟩, .shutdown)] ∧
      ∃ arrivals, (({ consumer := own } : Consumption).run cfg arrivals).Gapless
        (u'.consumer.replica.updates.lines.map LogLine.entry) ⟨0, 0⟩ := by
  intro cfg t w own u'
  have hlog : stretch.Pairwise fun a b => a.id < b.id := by decide
  have hreads : ∀ x ∈ t.reads, x.entries <+: unread stretch x.after := by decide +kernel
  have hentries : t.reads.flatMap Read.entries = stretch.take 3 := by decide +kernel
  have hlength : t.steps.length = 3 := by decide +kernel
  have hquiet := (answering_quiet ⟨.null, 1, 2⟩).keepsCursor
  have hg : ∀ d : Delivery, .reply d ∈ interrupted → ∀ p ∈ d.steps, p.1.KeepsCursor := by
    have hempty := Registry.quiet_empty.keepsCursor
    simp only [interrupted, stretch, List.take, List.map, List.mem_cons, List.not_mem_nil, or_false,
      Arrival.reply.injEq, reduceCtorEq, false_or]
    rintro d (rfl | rfl | rfl | rfl | rfl) <;> simp [Delivery.steps, hquiet, hempty]
  obtain ⟨hruns, -, -, -⟩ := run_batches cfg ⟨{}, 0⟩
  obtain ⟨-, hstore, hreceived, -, hgapless⟩ := hruns interrupted
  -- one evaluation of the timeline for all that is to be known of it
  obtain ⟨hevents, hrising, hseen⟩ : (u'.events.reverse.map fun e => (e.after, e.result)) =
        [(⟨0, 0⟩, .entries [⟨1, 0⟩, ⟨2, 0⟩]), (⟨2, 0⟩, .failed), (⟨2, 0⟩, .entries [⟨3, 0⟩, ⟨4, 0⟩]),
          (⟨4, 0⟩, .entries [⟨5, 0⟩, ⟨6, 0⟩]), (⟨6, 0⟩, .shutdown)] ∧
      ((u'.consumer.replica.updates.lines.map LogLine.entry).Pairwise fun a b => a.id < b.id) ∧
      ∀ line ∈ u'.consumer.replica.updates.lines, line.since ≤ 0 := by decide +kernel
  refine ⟨hlog, hreads, hgapless stretch hlog hg hreads, hentries, hreceived.trans (by rw [hlength]), hstore,
    hevents, ?_⟩
  subst u'
  obtain ⟨-, -, -, htimelines⟩ := run_batches cfg own
  obtain ⟨arrivals, events, -, -, -, -, -, -, hfollows⟩ :=
    htimelines w { consumer := own, readFaults := [false, true] } 10 rfl rfl
  exact ⟨arrivals, hfollows hquiet hrising hseen⟩

end ReplicatedOrders
