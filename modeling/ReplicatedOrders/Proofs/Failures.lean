/-
Failures: when failed reads end a run, and what each of them does before that.

A script is the replies to the reads of a run, one after the other, with no signal. `failuresInRow` counts the failed
reads at its end.
- `ReadPolicy.delay?_eq`: both policies are one rule with a limit and a first delay.
- `Consumer.afterDelivery_error`: a failed read leaves the replica alone.
- `Consumption.Outcome`, `Outcome.step`, `scripted_outcome`: where a run is after a script.
- `Linked.after_eq`: the read after a failed one asks for the same entries.
- `Timeline.round_failed`: the time that passes.
- `Consumption.ended_at_limit`: all of it.
-/
import ReplicatedOrders.Proofs.Batches

namespace ReplicatedOrders

/-! ## Policies -/

namespace ReadPolicy

/-- so many failures in a row end a run -/
def limit : ReadPolicy → Nat
  | fatal => 1
  | retry maxAttempts _ => max 1 maxAttempts.toNat

/-- the delay that is doubled -/
def firstDelay : ReadPolicy → Nat
  | fatal => 0
  | retry _ base => base

/-- the limit is one of the numbers with 32 bits -/
theorem limit_lt (p : ReadPolicy) : p.limit < UInt32.size := by
  cases p with
  | fatal => decide
  | retry maxAttempts base => exact max_lt (by decide) maxAttempts.toNat_lt

theorem limit_pos (p : ReadPolicy) : 0 < p.limit := by
  cases p with
  | fatal => exact Nat.one_pos
  | retry maxAttempts base => exact Nat.lt_of_lt_of_le Nat.one_pos (Nat.le_max_left _ _)

/-- after a failure, the next read waits unless the limit is reached -/
theorem delay?_eq (p : ReadPolicy) (n : Nat) :
    p.delay? (n + 1) = if n + 1 < p.limit then some (ReplicatedOrders.backoff p.firstDelay (n + 1)) else none := by
  cases p with
  | fatal =>
    have hreached : ¬ n + 1 < fatal.limit := Nat.not_lt.2 (Nat.le_add_left 1 n)
    rw [if_neg hreached]
    rfl
  | retry maxAttempts base =>
    have hlimit : n + 1 < (retry maxAttempts base).limit ↔ n + 1 < maxAttempts.toNat := by
      rw [limit, lt_max_iff]
      omega
    simp only [delay?, hlimit, firstDelay]

end ReadPolicy

theorem backoff_le_longest (base attempt : Nat) : backoff base attempt ≤ Wait.longest :=
  Nat.le_trans (Nat.min_le_right _ _) (by decide)

/-! ## Scripts -/

/-- the read failed -/
def Delivery.fails : Delivery → Bool
  | .ok _ => false
  | .error _ => true

/-- the failed reads at the end of a script -/
def failuresInRow (script : List Delivery) : Nat := (script.reverse.takeWhile Delivery.fails).length

theorem failuresInRow_ok (script : List Delivery) (steps : List (Registry × LogEntry)) :
    failuresInRow (script ++ [.ok steps]) = 0 := by
  simp [failuresInRow, Delivery.fails]

theorem failuresInRow_error (script : List Delivery) (cause : ServiceError) :
    failuresInRow (script ++ [.error cause]) = failuresInRow script + 1 := by
  rw [failuresInRow, List.reverse_append, List.reverse_singleton, List.singleton_append, List.takeWhile_cons_of_pos rfl]
  rfl

/-- nowhere so many failed reads in a row -/
def Within (limit : Nat) (script : List Delivery) : Prop := ∀ start, start <+: script → failuresInRow start < limit

namespace Within

variable {limit : Nat} {script : List Delivery}

theorem nil (h : 0 < limit) : Within limit [] := by
  intro start hstart
  rw [List.prefix_nil.1 hstart]
  exact h

theorem concat (h : Within limit script) {d : Delivery} (hd : failuresInRow (script ++ [d]) < limit) :
    Within limit (script ++ [d]) := by
  intro start hstart
  rcases List.prefix_concat_iff.1 hstart with rfl | hstart
  · exact hd
  · exact h start hstart

/-- where one failed read is too many, none failed -/
theorem all_ok (h : Within 1 script) : ∀ d ∈ script, d.fails = false := by
  intro d hd
  obtain ⟨before, later, rfl⟩ := List.append_of_mem hd
  have hcount := h (before ++ [d]) ⟨later, by simp⟩
  cases d with
  | ok steps => rfl
  | error cause =>
    rw [failuresInRow_error] at hcount
    omega

end Within

/-! ## One read -/

namespace Consumer

/-- a failed read leaves the replica alone, and is waited after or ends the run -/
theorem afterDelivery_error (cfg : ConsumerConfig) (c : Consumer) (cause : ServiceError) :
    c.afterDelivery cfg (.error cause) =
      ({ c with failures := c.failures + 1 },
        if c.failures + 1 < cfg.policy.limit then
          .backoff (ReplicatedOrders.backoff cfg.policy.firstDelay (c.failures + 1))
        else .giveUp (.readFailed (c.failures + 1) cause)) := by
  simp only [afterDelivery, afterRead, ReadPolicy.delay?_eq]
  split_ifs <;> rfl

/-- any other reply starts the count anew -/
theorem afterDelivery_ok (cfg : ConsumerConfig) (c : Consumer) (steps : List (Registry × LogEntry)) :
    (c.afterDelivery cfg (.ok steps)).1.failures = 0 ∧ (c.afterDelivery cfg (.ok steps)).2.ended? = none := by
  refine ⟨rfl, ?_⟩
  simp only [afterDelivery]
  split_ifs <;> rfl

end Consumer

/-! ## Runs -/

namespace Consumption

/-- where a run is after a script: it goes on, or it ended at the read that reached the limit -/
inductive Outcome (limit : Nat) (script : List Delivery) (t : Consumption) : Prop where
  | goesOn (hended : t.ended = none) (hreplies : t.replies = script) (hwithin : Within limit script)
    (hfailures : t.consumer.failures = failuresInRow script)
  | gaveUp {done rest : List Delivery} {cause : ServiceError} (hscript : script = done ++ .error cause :: rest)
    (hwithin : Within limit done) (hlimit : failuresInRow (done ++ [.error cause]) = limit)
    (hreplies : t.replies = done ++ [.error cause]) (hended : t.ended = some (.failed (.readFailed limit cause)))
    (hfailures : t.consumer.failures = limit)

variable {cfg : ConsumerConfig}

theorem Outcome.step {script : List Delivery} {t : Consumption} (h : Outcome cfg.policy.limit script t) (d : Delivery) :
    Outcome cfg.policy.limit (script ++ [d]) (t.step cfg (.reply d)) := by
  cases h with
  | @gaveUp done rest cause hscript hwithin hlimit hreplies hended hfailures =>
    -- replies that come after the end are never read
    rw [step_ended cfg hended]
    have hscript' : script ++ [d] = done ++ .error cause :: (rest ++ [d]) := by rw [hscript]; simp
    exact .gaveUp hscript' hwithin hlimit hreplies hended hfailures
  | goesOn hended hreplies hwithin hfailures =>
    have hreplies' : ∀ consumer ended,
        (⟨consumer, t.reads ++ [⟨t.cursor, some d⟩], ended⟩ : Consumption).replies = script ++ [d] := by
      intro consumer ended
      rw [← hreplies]
      simp [replies]
    rw [step_reply cfg hended]
    cases d with
    | ok steps =>
      obtain ⟨hreset, hnext⟩ := t.consumer.afterDelivery_ok cfg steps
      have hcount := failuresInRow_ok script steps
      refine .goesOn hnext (hreplies' _ _) (hwithin.concat ?_) (hreset.trans hcount.symm)
      rw [hcount]
      exact cfg.policy.limit_pos
    | error cause =>
      have hcount := failuresInRow_error script cause
      -- one read earlier the limit was not reached, so it is reached exactly
      have hlast := hwithin script List.prefix_rfl
      rw [Consumer.afterDelivery_error, hfailures, ← hcount]
      by_cases hlimit : failuresInRow (script ++ [.error cause]) < cfg.policy.limit
      · rw [if_pos hlimit]
        exact .goesOn rfl (hreplies' _ _) (hwithin.concat hlimit) rfl
      · rw [if_neg hlimit]
        have hreached : failuresInRow (script ++ [.error cause]) = cfg.policy.limit := by omega
        exact .gaveUp rfl hwithin hreached (hreplies' _ _) (by rw [hreached]; rfl) hreached

/-- a run of a script, from the start of the loop -/
def scripted (cfg : ConsumerConfig) (r : Replica) (script : List Delivery) : Consumption :=
  ({ consumer := ⟨r, 0⟩ } : Consumption).run cfg (script.map .reply)

theorem scripted_outcome (cfg : ConsumerConfig) (r : Replica) (script : List Delivery) :
    Outcome cfg.policy.limit script (scripted cfg r script) := by
  induction script using List.reverseRecOn with
  | nil => exact .goesOn rfl rfl (.nil cfg.policy.limit_pos) rfl
  | append_singleton script d ih =>
    have hstep : scripted cfg r (script ++ [d]) = (scripted cfg r script).step cfg (.reply d) := by
      rw [scripted, List.map_append, run_append]
      rfl
    rw [hstep]
    exact ih.step d

end Consumption

/-- a failed read brings nothing, so the next one asks for the same -/
theorem Linked.after_eq {r : Replica} {reads earlier later : List Read} {x y : Read} (h : Linked r reads)
    (hreads : reads = earlier ++ x :: y :: later) {cause : ServiceError} (hx : x.reply = some (.error cause)) :
    y.after = x.after := by
  have hnothing : x.steps = [] := by rw [Read.steps, hx]; rfl
  rw [h earlier x (y :: later) hreads, h (earlier ++ [x]) y later (by rw [hreads]; simp), List.flatMap_append,
    List.flatMap_singleton, hnothing, List.append_nil]

/-! ## Time -/

namespace Timeline

/-- without a signal, a wait of some milliseconds lasts exactly so long -/
theorem wait_quiet {w : Scenario} (hquiet : ∀ time, w.shutdown.interruption? time = none) (t : Timeline) {ms : Nat}
    (hms : ms ≤ Wait.longest) : t.wait w ms = ({ t with now := t.now + ms }, none) := by
  simp only [wait, hquiet, pause, Wait.lasting_of_le hms]

/-- the timeline after a read that failed, before any wait -/
def afterFailure (t : Timeline) : Timeline :=
  { t with
    consumer := { t.consumer with failures := t.consumer.failures + 1 }
    readFaults := t.readFaults.tail
    events := ⟨t.now, t.cursor, .failed⟩ :: t.events }

theorem round_failed {w : Scenario} (hquiet : ∀ time, w.shutdown.interruption? time = none) {t : Timeline}
    (hfault : t.readFaults.head? = some true) :
    t.round w =
      if t.consumer.failures + 1 < w.config.policy.limit then
        ({ t.afterFailure with now := t.now + backoff w.config.policy.firstDelay (t.consumer.failures + 1) }, none)
      else (t.afterFailure, some (.failed (.readFailed (t.consumer.failures + 1) Log.readFault))) := by
  obtain ⟨rest, hrest⟩ := List.head?_eq_some_iff.1 hfault
  have hsent : ¬ w.shutdown.isSent t.now = true := by simp [Shutdown.isSent, hquiet]
  have hreply : t.consumer.afterRead w.config w.registry (.error Log.readFault) =
      t.consumer.afterDelivery w.config (.error Log.readFault) := rfl
  simp only [round, if_neg hsent, hrest, reply, list, hreply, Consumer.afterDelivery_error]
  by_cases hlimit : t.consumer.failures + 1 < w.config.policy.limit
  · rw [if_pos hlimit, if_pos hlimit]
    dsimp only
    rw [wait_quiet hquiet _ (backoff_le_longest _ _)]
    simp [afterFailure, hrest, cursor]
  · rw [if_neg hlimit, if_neg hlimit]
    simp [afterFailure, hrest, cursor]

end Timeline

/-- **A run ends at the first read with which so many failed in a row as the policy allows,** and at no other read. Up
to there a failed read is followed by its delay and by a read for the same entries, with the replica as it was, and any
other reply starts the count anew. The count fits 32 bits. -/
theorem Consumption.ended_at_limit (cfg : ConsumerConfig) (r : Replica) (script : List Delivery) :
    let t := scripted cfg r script
    let limit := cfg.policy.limit
    let n := t.consumer.failures + 1
    ((t.ended = none ∧ t.replies = script ∧ Within limit script ∧ t.consumer.failures = failuresInRow script) ∨
        ∃ (done rest : List Delivery) (cause : ServiceError), script = done ++ .error cause :: rest ∧
          Within limit done ∧ (limit = 1 → ∀ d ∈ done, d.fails = false) ∧
          failuresInRow (done ++ [.error cause]) = limit ∧ t.replies = done ++ [.error cause] ∧
          t.ended = some (.failed (.readFailed limit cause))) ∧
      (∀ steps, (t.consumer.afterDelivery cfg (.ok steps)).1.failures = 0) ∧
      (∀ cause, t.consumer.afterDelivery cfg (.error cause) =
        ({ t.consumer with failures := n },
          if n < limit then .backoff (backoff cfg.policy.firstDelay n) else .giveUp (.readFailed n cause))) ∧
      (∀ (earlier later : List Read) (x y : Read) (cause : ServiceError), t.reads = earlier ++ x :: y :: later →
        x.reply = some (.error cause) → y.after = x.after) ∧
      (t.consumer.failures ≤ limit ∧ limit < UInt32.size) ∧
      (∀ g (bs : List Batch), script = bs.map (fun b => b.map fun es => es.map (g, ·)) →
        Consumer.rounds cfg g ⟨r, 0⟩ bs = (t.consumer, t.ended.bind Ended.error?)) ∧
      ∀ (w : Scenario) (u : Timeline), w.config = cfg → (∀ time, w.shutdown.interruption? time = none) →
        u.consumer = t.consumer → u.readFaults.head? = some true →
          (u.round w =
            if n < limit then ({ u.afterFailure with now := u.now + backoff cfg.policy.firstDelay n }, none)
            else (u.afterFailure, some (.failed (.readFailed n Log.readFault)))) ∧
          u.afterFailure.consumer = { t.consumer with failures := n } ∧ u.afterFailure.cursor = u.cursor := by
  intro t limit n
  have houtcome : Outcome limit script t := scripted_outcome cfg r script
  have hlinked : Linked r t.reads := (run_inv cfg ⟨r, 0⟩ (script.map .reply)).linked
  refine ⟨?_, fun steps => (t.consumer.afterDelivery_ok cfg steps).1, t.consumer.afterDelivery_error cfg, ?_, ?_, ?_,
    ?_⟩
  · cases houtcome with
    | goesOn hended hreplies hwithin hfailures => exact Or.inl ⟨hended, hreplies, hwithin, hfailures⟩
    | @gaveUp done rest cause hscript hwithin hlimit hreplies hended _ =>
      have hfirst : limit = 1 → ∀ d ∈ done, d.fails = false := fun hone => Within.all_ok (hone ▸ hwithin)
      exact Or.inr ⟨done, rest, cause, hscript, hwithin, hfirst, hlimit, hreplies, hended⟩
  · intro earlier later x y cause hreads hx
    exact hlinked.after_eq hreads hx
  · refine ⟨?_, cfg.policy.limit_lt⟩
    cases houtcome with
    | goesOn _ _ hwithin hfailures =>
      rw [hfailures]
      exact (hwithin script List.prefix_rfl).le
    | gaveUp _ _ _ _ _ hfailures => exact hfailures.le
  · intro g bs hscript
    have hrun : t = ({ consumer := ⟨r, 0⟩ } : Consumption).run cfg
        (bs.map fun b => .reply (b.map fun es => es.map (g, ·))) := by
      rw [← Function.comp_def, ← List.map_map, ← hscript]
      rfl
    rw [hrun]
    exact rounds_eq (t := { consumer := ⟨r, 0⟩ }) rfl g bs
  · intro w u hw hquiet hu hfault
    subst hw
    have hround := Timeline.round_failed hquiet hfault
    rw [hu] at hround
    exact ⟨hround, by rw [Timeline.afterFailure, hu], rfl⟩

/-- a failed read and an empty reply, and then two failed reads; and a delay of ten milliseconds -/
theorem Consumption.ended_at_limit_recovered :
    let cfg : ConsumerConfig := { policy := .retry 2 10 }
    let fails : Delivery := .error Log.readFault
    let t := scripted cfg {} [fails, .ok [], fails, fails, .ok []]
    let batches : List Batch := [.error Log.readFault, .ok [], .error Log.readFault, .error Log.readFault, .ok []]
    let u : Timeline := { consumer := ⟨{}, 0⟩, readFaults := [true] }
    t.replies = [fails, .ok [], fails, fails] ∧ t.ended = some (.failed (.readFailed 2 Log.readFault)) ∧
      (Consumer.rounds cfg ∅ ⟨{}, 0⟩ batches).2 = some (.readFailed 2 Log.readFault) ∧
      (∃ x y later, t.reads = [] ++ x :: y :: later ∧ x.reply = some fails ∧ y.after = x.after) ∧
      (u.round { config := cfg }).1.now = 10 := by
  intro cfg fails t batches u
  have hreplies : t.replies = [fails, .ok [], fails] ++ [fails] := rfl
  have hgaveUp : t.ended ≠ none := nofun
  obtain ⟨hend, -, -, hasks, -, hrounds, -⟩ := ended_at_limit cfg {} [fails, .ok [], fails, fails, .ok []]
  obtain ⟨-, -, -, -, -, -, htime⟩ := ended_at_limit cfg {} []
  have hended : t.ended = some (.failed (.readFailed 2 Log.readFault)) := by
    rcases hend with ⟨hgoesOn, -⟩ | ⟨done, rest, cause, -, -, -, -, hdone, hfailed⟩
    · exact absurd hgoesOn hgaveUp
    · obtain ⟨-, hlast⟩ := List.append_inj' (hreplies.symm.trans hdone) rfl
      obtain rfl : Log.readFault = cause := Except.error.inj (List.head_eq_of_cons_eq hlast)
      exact hfailed
  refine ⟨hreplies, hended, ?_, ⟨_, _, _, rfl, rfl, hasks [] _ _ _ _ rfl rfl⟩, ?_⟩
  · rw [hrounds ∅ batches rfl]
    exact congrArg (Option.bind · Ended.error?) hended
  · rw [(htime { config := cfg } u rfl (fun _ => rfl) rfl rfl).1]
    rfl

end ReplicatedOrders
