/-
Batches: the consumer applies every entry that it reads once, in the order of the log, in whole batches.

Between two reads the loop may pause or back off; the signal may come at any time, and a read may fail, find nothing or
bring entries of any kind. Two batches are one batch of the entries of both, so whatever happens on the way the replica
is that of one batch of all entries read.
- `Replica.processBatch_append`: batches add up.
- `Consumer.afterRead_eq`: one round of the loop, where the sources may also answer differently at every entry.
- `Consumption.Inv`, `Consumption.run_inv`: what a run makes of the replica, what its reads ask for, and which arrivals
  it handles.
- `Linked.entries_next`: reads that find the next entries of a log one by one find the next entries together.
- `Consumption.Inv.gapless`: a run reads a log whose ids rise without a gap.
- `Consumption.rounds_eq`: the rounds of a script are such a run.
-/
import ReplicatedOrders.Proofs.Reading

namespace ReplicatedOrders

/-! ## One round of the loop -/

namespace Replica

/-- a whole batch: its entries one after the other, then the gauge; nothing if there are none -/
def processBatch (r : Replica) (steps : List (Registry × LogEntry)) : Replica :=
  if steps = [] then r else (r.processEach steps).gauge

theorem processBatch_nil (r : Replica) : r.processBatch [] = r := if_pos rfl

/-- the gauge aside, a batch is its entries -/
theorem processBatch_parts (r : Replica) (steps : List (Registry × LogEntry)) :
    (r.processBatch steps).store = (r.processEach steps).store ∧
      (r.processBatch steps).updates = (r.processEach steps).updates ∧
      (r.processBatch steps).counters.received = (r.processEach steps).counters.received := by
  unfold processBatch
  split
  · next h => subst h; exact ⟨rfl, rfl, rfl⟩
  · exact ⟨rfl, rfl, rfl⟩

/-- show a number of orders -/
def showing (r : Replica) (n : Option Nat) : Replica := { r with counters := { r.counters with orders := n } }

theorem accept_showing (r : Replica) (n : Option Nat) (e : LogEntry) :
    (r.showing n).accept e = ((r.accept e).1.showing n, (r.accept e).2) := by
  unfold accept showing
  cases e.action? with
  | none =>
    dsimp only
    cases r.store.advance e.id with
    | mk s moved => cases moved <;> rfl
  | some a =>
    dsimp only
    cases r.store.apply e.id a with
    | mk s applied => cases applied <;> rfl

theorem settle_showing (r : Replica) (n : Option Nat) (hash : String) (reply : Except ReplicaError OnChainData) :
    (r.showing n).settle hash reply = ((r.settle hash reply).1.showing n, (r.settle hash reply).2) := by
  cases reply with
  | error e => rfl
  | ok data =>
    simp only [settle, merge, showing]
    cases r.store.merge hash data with
    | mk s there => cases there <;> rfl

theorem enrich_showing (g : Registry) (r : Replica) (n : Option Nat) (hash : String) :
    (r.showing n).enrich g hash = ((r.enrich g hash).1.showing n, (r.enrich g hash).2) := by
  cases hlookup : r.store.lookup hash with
  | settled out =>
    have hlookup' : (r.showing n).store.lookup hash = .settled out := hlookup
    rw [enrich, enrich, hlookup, hlookup']
  | incomplete o =>
    have hlookup' : (r.showing n).store.lookup hash = .incomplete o := hlookup
    rw [enrich_incomplete hlookup, enrich_incomplete hlookup']
    exact settle_showing { r with store := r.store.after (g.fetched o).writes, asked := g.asks o ++ r.asked } n hash _

/-- nothing depends on the number of orders that is shown -/
theorem process_showing (g : Registry) (r : Replica) (n : Option Nat) (e : LogEntry) :
    (r.showing n).process g e = (r.process g e).showing n := by
  unfold process
  rw [accept_showing]
  cases r.accept e with
  | mk r' upserted =>
    cases upserted with
    | none => rfl
    | some hash => exact congrArg Prod.fst (enrich_showing g r' n hash)

theorem processEach_showing (r : Replica) (n : Option Nat) (steps : List (Registry × LogEntry)) :
    (r.showing n).processEach steps = (r.processEach steps).showing n := by
  induction steps generalizing r with
  | nil => rfl
  | cons p steps ih =>
    have hrest := ih (r.process p.1 p.2)
    rw [← process_showing] at hrest
    exact hrest

/-- **Two batches are one batch of the entries of both.** -/
theorem processBatch_append (r : Replica) (steps steps' : List (Registry × LogEntry)) :
    (r.processBatch steps).processBatch steps' = r.processBatch (steps ++ steps') := by
  by_cases h : steps = []
  · rw [h, processBatch_nil, List.nil_append]
  · by_cases h' : steps' = []
    · rw [h', processBatch_nil, List.append_nil]
    · have hgauge : (r.processEach steps).gauge.processEach steps' =
          ((r.processEach steps).processEach steps').showing (some (r.processEach steps).store.size) :=
        processEach_showing _ _ _
      rw [processBatch, processBatch, processBatch, if_neg h, if_neg h', if_neg (by simp [h]), hgauge, processEach,
        processEach, processEach, List.foldl_append]
      rfl

end Replica

/-- the reply to a read, with the sources as they answer at each entry -/
abbrev Delivery := Except ServiceError (List (Registry × LogEntry))

namespace Consumer

/-- one round of the loop after such a reply -/
def afterDelivery (cfg : ConsumerConfig) (c : Consumer) : Delivery → Consumer × Next
  | .ok steps =>
    ({ replica := c.replica.processBatch steps, failures := 0 },
      if steps = [] ∨ cfg.pause = 0 then .read else .pause cfg.pause)
  | .error e => c.afterRead cfg ∅ (.error e)

/-- a round where the sources answer alike at every entry -/
theorem afterRead_eq (cfg : ConsumerConfig) (g : Registry) (c : Consumer) (b : Batch) :
    c.afterRead cfg g b = c.afterDelivery cfg (b.map fun es => es.map (g, ·)) := by
  cases b with
  | error e => rfl
  | ok es =>
    cases es with
    | nil => rfl
    | cons e es =>
      have hbatch : c.replica.processBatch ((e :: es).map (g, ·)) = (c.replica.processAll g (e :: es)).gauge := by
        rw [Replica.processBatch, if_neg (by simp), Replica.processEach, List.foldl_map]
        rfl
      show _ = ((⟨c.replica.processBatch ((e :: es).map (g, ·)), 0⟩ : Consumer), _)
      rw [hbatch]
      simp [afterRead]

end Consumer

/-! ## Runs of the loop -/

/-- the entries of a reply -/
def Delivery.steps : Delivery → List (Registry × LogEntry)
  | .ok steps => steps
  | .error _ => []

/-- how a run ends if the loop does not go on -/
def Next.ended? : Next → Option Ended
  | .giveUp e => some (.failed e)
  | _ => none

namespace Consumer

theorem afterDelivery_replica (cfg : ConsumerConfig) (c : Consumer) (d : Delivery) :
    (c.afterDelivery cfg d).1.replica = c.replica.processBatch d.steps := by
  cases d with
  | ok steps => rfl
  | error e =>
    simp only [afterDelivery, afterRead, Delivery.steps, Replica.processBatch_nil]
    split <;> rfl

/-- only a failed read ends a run, if the policy gives up -/
theorem afterDelivery_ended (cfg : ConsumerConfig) (c : Consumer) (d : Delivery) :
    (c.afterDelivery cfg d).2.ended? = none ∨
      ∃ n cause, d = .error cause ∧ cfg.policy.delay? n = none ∧
        (c.afterDelivery cfg d).2.ended? = some (.failed (.readFailed n cause)) := by
  cases d with
  | ok steps =>
    simp only [afterDelivery]
    split <;> exact Or.inl rfl
  | error e =>
    simp only [afterDelivery, afterRead]
    split
    · exact Or.inl rfl
    · next hgivesUp => exact Or.inr ⟨_, e, rfl, hgivesUp, rfl⟩

end Consumer

/-- a read of the loop -/
structure Read where
  /-- it asks for the entries after this id -/
  after : EntryId
  /-- nothing if the signal comes first -/
  reply : Option Delivery

namespace Read

def steps (x : Read) : List (Registry × LogEntry) := x.reply.elim [] Delivery.steps

def entries (x : Read) : List LogEntry := x.steps.map Prod.snd

end Read

/-- the cursor of a replica after reads, with sources that leave it alone -/
theorem Replica.cursor_reads (r : Replica) {reads : List Read} (hg : ∀ x ∈ reads, ∀ p ∈ x.steps, p.1.KeepsCursor) :
    (r.processBatch (reads.flatMap Read.steps)).store.cursor =
      ((reads.flatMap Read.entries).map LogEntry.id).foldl max r.store.cursor := by
  have hkeeps : ∀ p ∈ reads.flatMap Read.steps, p.1.KeepsCursor := by
    intro p hp
    obtain ⟨x, hx, hp⟩ := List.mem_flatMap.1 hp
    exact hg x hx p hp
  have hentries : reads.flatMap Read.entries = (reads.flatMap Read.steps).map Prod.snd := List.map_flatMap.symm
  rw [(r.processBatch_parts _).1, Replica.processEach_cursor hkeeps, hentries, List.map_map]
  rfl

/-- each read asks for what comes after the entries of the reads before it -/
def Linked (r : Replica) (reads : List Read) : Prop :=
  ∀ earlier x later, reads = earlier ++ x :: later →
    x.after = (r.processBatch (earlier.flatMap Read.steps)).store.cursor

namespace Linked

variable {r : Replica} {reads : List Read}

theorem concat (h : Linked r reads) {last : Read}
    (hlast : last.after = (r.processBatch (reads.flatMap Read.steps)).store.cursor) : Linked r (reads ++ [last]) := by
  intro earlier x later hreads
  induction later using List.reverseRecOn with
  | nil =>
    obtain ⟨rfl, hx⟩ := List.append_inj' hreads rfl
    rw [← List.head_eq_of_cons_eq hx]
    exact hlast
  | append_singleton later y _ =>
    rw [← List.cons_append, ← List.append_assoc] at hreads
    exact h earlier x later (List.append_inj_left' hreads rfl)

theorem of_append {later : List Read} (h : Linked r (reads ++ later)) : Linked r reads := by
  intro earlier x between hreads
  refine h earlier x (between ++ later) ?_
  rw [hreads, List.append_assoc, List.cons_append]

/-- Reads that find the next entries of a log where each begins find the next entries of the log together. -/
theorem entries_next {log : List LogEntry} (hlog : log.Pairwise fun a b => a.id < b.id) (h : Linked r reads)
    (hg : ∀ x ∈ reads, ∀ p ∈ x.steps, p.1.KeepsCursor) (hreads : ∀ x ∈ reads, x.entries <+: unread log x.after) :
    reads.flatMap Read.entries <+: unread log r.store.cursor := by
  induction reads using List.reverseRecOn with
  | nil => exact List.nil_prefix
  | append_singleton reads x ih =>
    rw [List.forall_mem_append] at hg hreads
    obtain ⟨rest, hrest⟩ := ih h.of_append hg.1 hreads.1
    have hbegins : unread log x.after = rest := by
      rw [h reads x [] rfl, r.cursor_reads hg.1, unread_after_batch hlog ⟨rest, hrest⟩, ← hrest, List.drop_left]
    have hx : x.entries <+: rest := hbegins ▸ hreads.2 x (by simp)
    rw [← hrest, List.flatMap_append, List.flatMap_singleton]
    exact (List.prefix_append_right_inj _).2 hx

end Linked

/-- what the loop meets next -/
inductive Arrival where
  /-- the reply to the next read -/
  | reply (d : Delivery)
  /-- the signal, while no read is under way -/
  | signal
  /-- the signal, while the next read is under way -/
  | interruption

/-- a run of the loop up to now -/
structure Consumption where
  consumer : Consumer
  /-- the reads that were issued -/
  reads : List Read := []
  ended : Option Ended := none

namespace Consumption

def cursor (t : Consumption) : EntryId := t.consumer.replica.store.cursor

/-- the entries of all reads -/
def steps (t : Consumption) : List (Registry × LogEntry) := t.reads.flatMap Read.steps

/-- the replies that came -/
def replies (t : Consumption) : List Delivery := t.reads.filterMap Read.reply

def step (cfg : ConsumerConfig) (t : Consumption) (a : Arrival) : Consumption :=
  match t.ended, a with
  | some _, _ => t
  | none, .reply d =>
    let (c, next) := t.consumer.afterDelivery cfg d
    { consumer := c, reads := t.reads ++ [⟨t.cursor, some d⟩], ended := next.ended? }
  | none, .signal => { t with ended := some .stopped }
  | none, .interruption => { t with reads := t.reads ++ [⟨t.cursor, none⟩], ended := some .stopped }

def run (cfg : ConsumerConfig) (t : Consumption) (arrivals : List Arrival) : Consumption :=
  arrivals.foldl (step cfg) t

theorem run_singleton (cfg : ConsumerConfig) (t : Consumption) (a : Arrival) : t.run cfg [a] = t.step cfg a := rfl

theorem run_append (cfg : ConsumerConfig) (t : Consumption) (arrivals arrivals' : List Arrival) :
    t.run cfg (arrivals ++ arrivals') = (t.run cfg arrivals).run cfg arrivals' := List.foldl_append

section

variable {t : Consumption} (cfg : ConsumerConfig)

theorem step_ended {ended : Ended} (h : t.ended = some ended) (a : Arrival) : t.step cfg a = t := by
  simp only [step, h]

theorem step_reply (h : t.ended = none) (d : Delivery) :
    t.step cfg (.reply d) =
      ⟨(t.consumer.afterDelivery cfg d).1, t.reads ++ [⟨t.cursor, some d⟩],
        (t.consumer.afterDelivery cfg d).2.ended?⟩ := by
  simp only [step, h]

theorem step_signal (h : t.ended = none) : t.step cfg .signal = { t with ended := some .stopped } := by
  simp only [step, h]

theorem step_interruption (h : t.ended = none) :
    t.step cfg .interruption = { t with reads := t.reads ++ [⟨t.cursor, none⟩], ended := some .stopped } := by
  simp only [step, h]

end

/-- Why a run handles no more arrivals: none is left, or the signal came next, or the last reply was a failure and the
policy gave up. -/
def Explained (cfg : ConsumerConfig) (t : Consumption) (left : List Arrival) : Prop :=
  match t.ended with
  | none => left = []
  | some .stopped => left.head? = some .signal ∨ left.head? = some .interruption
  | some (.failed e) =>
    ∃ n cause, t.replies.getLast? = some (.error cause) ∧ cfg.policy.delay? n = none ∧ e = .readFailed n cause

/-- what a run from a replica is after some arrivals -/
structure Inv (cfg : ConsumerConfig) (r : Replica) (arrivals : List Arrival) (t : Consumption) : Prop where
  replica : t.consumer.replica = r.processBatch t.steps
  linked : Linked r t.reads
  arrivals : ∃ left, arrivals = t.replies.map Arrival.reply ++ left ∧ t.Explained cfg left

theorem Inv.step {cfg : ConsumerConfig} {r : Replica} {arrivals : List Arrival} {t : Consumption}
    (h : t.Inv cfg r arrivals) (a : Arrival) : (t.step cfg a).Inv cfg r (arrivals ++ [a]) := by
  obtain ⟨left, hleft, hexplained⟩ := h.arrivals
  -- another read would ask with the cursor as it is
  have hafter : ∀ reply, (⟨t.cursor, reply⟩ : Read).after = (r.processBatch t.steps).store.cursor :=
    fun _ => congrArg (·.store.cursor) h.replica
  unfold Explained at hexplained
  cases hended : t.ended with
  | some ended =>
    rw [step_ended cfg hended]
    refine ⟨h.replica, h.linked, left ++ [a], by rw [hleft, List.append_assoc], ?_⟩
    unfold Explained
    rw [hended] at hexplained ⊢
    cases ended with
    | stopped =>
      cases left with
      | nil => simp at hexplained
      | cons b left => exact hexplained
    | failed e => exact hexplained
  | none =>
    have hall : arrivals = t.replies.map Arrival.reply := by
      rw [hended] at hexplained
      rw [hleft, hexplained, List.append_nil]
    cases a with
    | reply d =>
      rw [step_reply cfg hended]
      refine ⟨?_, h.linked.concat (hafter (some d)), [], ?_, ?_⟩
      · rw [Consumer.afterDelivery_replica, h.replica, Replica.processBatch_append]
        simp [steps, Read.steps]
      · simp [hall, replies]
      · rcases t.consumer.afterDelivery_ended cfg d with hnext | ⟨n, cause, rfl, hgivesUp, hnext⟩
        · rw [Explained, hnext]
        · rw [Explained, hnext]
          exact ⟨n, cause, by simp [replies], hgivesUp, rfl⟩
    | signal =>
      rw [step_signal cfg hended]
      exact ⟨h.replica, h.linked, [.signal], by rw [hall]; rfl, Or.inl rfl⟩
    | interruption =>
      rw [step_interruption cfg hended]
      refine ⟨?_, h.linked.concat (hafter none), [.interruption], ?_, Or.inr rfl⟩
      · simpa [steps, Read.steps] using h.replica
      · simp [hall, replies]

theorem run_inv (cfg : ConsumerConfig) (c : Consumer) (arrivals : List Arrival) :
    (({ consumer := c } : Consumption).run cfg arrivals).Inv cfg c.replica arrivals := by
  induction arrivals using List.reverseRecOn with
  | nil =>
    refine ⟨(Replica.processBatch_nil _).symm, fun earlier x later h => ?_, [], rfl, rfl⟩
    have hreads : [] = earlier ++ x :: later := h
    simp at hreads
  | append_singleton arrivals a ih =>
    rw [run_append, run_singleton]
    exact ih.step a

/-- replies are handled as they arrive -/
theorem reply_mem_arrivals {cfg : ConsumerConfig} {c : Consumer} {arrivals : List Arrival} {x : Read} {d : Delivery}
    (hx : x ∈ (({ consumer := c } : Consumption).run cfg arrivals).reads) (hd : x.reply = some d) :
    .reply d ∈ arrivals := by
  obtain ⟨left, hleft, -⟩ := (run_inv cfg c arrivals).arrivals
  rw [hleft]
  exact List.mem_append_left _ (List.mem_map.2 ⟨d, List.mem_filterMap.2 ⟨x, hx, hd⟩, rfl⟩)

/-- the reads of a run that starts at an id bring the next entries of a log -/
structure Gapless (log : List LogEntry) (start : EntryId) (t : Consumption) : Prop where
  /-- no entry is left out, and none comes twice -/
  entries : t.reads.flatMap Read.entries <+: unread log start
  /-- each read asks for what follows the last entry read before it -/
  after : ∀ earlier x later, t.reads = earlier ++ x :: later →
    x.after = ((earlier.flatMap Read.entries).getLast?.map LogEntry.id).getD start

theorem Inv.gapless {cfg : ConsumerConfig} {r : Replica} {arrivals : List Arrival} {t : Consumption}
    (h : t.Inv cfg r arrivals) {log : List LogEntry} (hlog : log.Pairwise fun a b => a.id < b.id)
    (hg : ∀ x ∈ t.reads, ∀ p ∈ x.steps, p.1.KeepsCursor)
    (hreads : ∀ x ∈ t.reads, x.entries <+: unread log x.after) : t.Gapless log r.store.cursor where
  entries := h.linked.entries_next hlog hg hreads
  after := by
    intro earlier x later hsplit
    have hearlier : ∀ y ∈ earlier, y ∈ t.reads := fun y hy => hsplit ▸ List.mem_append_left _ hy
    have hkeeps : ∀ y ∈ earlier, ∀ p ∈ y.steps, p.1.KeepsCursor := fun y hy => hg y (hearlier y hy)
    have hlinked : Linked r earlier := (hsplit ▸ h.linked).of_append
    have hprefix := hlinked.entries_next hlog hkeeps fun y hy => hreads y (hearlier y hy)
    rw [h.linked earlier x later hsplit, r.cursor_reads hkeeps, foldl_max_batch hlog hprefix]

end Consumption

/-! ## Rounds of a script -/

/-- how a run ended, if with an error -/
def Ended.error? : Ended → Option ReplicaError
  | .stopped => none
  | .failed e => some e

namespace Consumption

variable {cfg : ConsumerConfig}

theorem run_ended (cfg : ConsumerConfig) {t : Consumption} {ended : Ended} (h : t.ended = some ended)
    (arrivals : List Arrival) : t.run cfg arrivals = t := by
  induction arrivals with
  | nil => rfl
  | cons a arrivals ih =>
    rw [run, List.foldl_cons, step_ended cfg h]
    exact ih

/-- rounds where the sources always answer alike are a run of their replies -/
theorem rounds_eq {t : Consumption} (h : t.ended = none) (g : Registry) (bs : List Batch) :
    t.consumer.rounds cfg g bs =
      ((t.run cfg (bs.map fun b => .reply (b.map fun es => es.map (g, ·)))).consumer,
        (t.run cfg (bs.map fun b => .reply (b.map fun es => es.map (g, ·)))).ended.bind Ended.error?) := by
  induction bs generalizing t with
  | nil =>
    show (t.consumer, none) = (t.consumer, t.ended.bind Ended.error?)
    rw [h]
    rfl
  | cons b bs ih =>
    rw [Consumer.rounds, Consumer.afterRead_eq, List.map_cons, run, List.foldl_cons, step_reply cfg h]
    generalize b.map (fun es => es.map (g, ·)) = d
    generalize t.reads ++ [⟨t.cursor, some d⟩] = reads
    generalize t.consumer.afterDelivery cfg d = p
    obtain ⟨c, next⟩ := p
    cases next with
    | giveUp e =>
      have hrest := run_ended cfg (rfl : (⟨c, reads, some (.failed e)⟩ : Consumption).ended = some (.failed e))
        (bs.map fun b => .reply (b.map fun es => es.map (g, ·)))
      show (c, some e) = _
      rw [← run, Next.ended?, hrest]
      rfl
    | read | pause | backoff => exact @ih ⟨c, reads, none⟩ rfl

end Consumption

end ReplicatedOrders
