/-
Timelines: a run of the consumer against its own update stream, with the time that passes.

Time moves only by waiting. A read that finds no entry waits for a while and looks again. The shutdown signal is looked
at before every read, and it ends a waiting read and a backoff at once, but not the pause after a batch. A signal for a
given time is sent only while the consumer waits: where a wait ends at that very time, the consumer goes on first, up to
its next wait.
-/
import ReplicatedOrders.Consumer
import ReplicatedOrders.Wait

namespace ReplicatedOrders

/-- when the shutdown signal is sent -/
inductive Shutdown where
  /-- before the start -/
  | atOnce
  /-- after a wait from the start on -/
  | timed (ms : Nat)
  /-- with a read that finds nothing, after so many such reads -/
  | idle (emptyReads : Nat)
deriving DecidableEq, Repr

namespace Shutdown

/-- the time at which the signal ends a wait up to a given time, if it does -/
def interruption? (s : Shutdown) (time : Nat) : Option Nat :=
  match s with
  | atOnce => some 0
  | timed ms => if Wait.lasting ms < time then some (Wait.lasting ms) else none
  | idle _ => none

/-- the signal was sent before a time -/
def isSent (s : Shutdown) (time : Nat) : Bool := (s.interruption? time).isSome

/-- the next read that finds nothing brings the signal -/
def isDue (s : Shutdown) (emptyReads : Nat) : Bool :=
  match s with
  | idle n => n ≤ emptyReads
  | _ => false

end Shutdown

/-- the world around a run -/
structure Scenario where
  config : ConsumerConfig := {}
  registry : Registry := ∅
  /-- how long a read waits for entries -/
  block : Nat := 5000
  shutdown : Shutdown := .idle 0

/-- what a read came to -/
inductive ReadResult where
  | entries (ids : List EntryId)
  | failed
  | shutdown
deriving DecidableEq, Repr

structure ReadEvent where
  time : Nat
  after : EntryId
  result : ReadResult
deriving DecidableEq, Repr

structure Timeline where
  consumer : Consumer
  /-- which of the next reads fail -/
  readFaults : List Bool := []
  /-- reads that found nothing so far -/
  emptyReads : Nat := 0
  now : Nat := 0
  /-- the reads so far, latest first -/
  events : List ReadEvent := []

/-- how a run ended -/
inductive Ended where
  | stopped
  | failed (e : ReplicaError)

namespace Timeline

def cursor (t : Timeline) : EntryId := t.consumer.replica.store.cursor

/-- list a read that started at a time -/
def list (t : Timeline) (time : Nat) (result : ReadResult) : Timeline :=
  { t with events := ⟨time, t.cursor, result⟩ :: t.events }

/-- the entries that a read finds now -/
def find (w : Scenario) (t : Timeline) : List LogEntry :=
  t.consumer.replica.updates.readAfter t.now t.cursor w.config.batchSize.toNat

/-- let time pass, whatever the signal -/
def pause (t : Timeline) (ms : Nat) : Timeline := { t with now := t.now + Wait.lasting ms }

/-- wait for so long, or until the signal if that comes first -/
def wait (w : Scenario) (t : Timeline) (ms : Nat) : Timeline × Option Ended :=
  let rested := t.pause ms
  match w.shutdown.interruption? rested.now with
  | some sent => ({ t with now := max t.now sent }, some .stopped)
  | none => (rested, none)

/-- the round after a reply -/
def reply (w : Scenario) (t : Timeline) (b : Batch) : Timeline × Option Ended :=
  match t.consumer.afterRead w.config w.registry b with
  | (c, .read) => ({ t with consumer := c }, none)
  | (c, .pause ms) => ({ t with consumer := c }.pause ms, none)
  | (c, .backoff ms) => { t with consumer := c }.wait w ms
  | (c, .giveUp e) => ({ t with consumer := c }, some (.failed e))

/-- the reply with the entries that are found now, to a read that started at a time -/
def deliver (w : Scenario) (t : Timeline) (started : Nat) : Timeline × Option Ended :=
  let es := t.find w
  (t.list started (.entries (es.map LogEntry.id))).reply w (.ok es)

/-- a read that found nothing at first -/
def block (w : Scenario) (t : Timeline) : Timeline × Option Ended :=
  if w.shutdown.isDue t.emptyReads then (t.list t.now .shutdown, some .stopped)
  else
    match { t with emptyReads := t.emptyReads + 1 }.wait w w.block with
    | (t', none) => t'.deliver w t.now
    | (t', some e) => (t', some e)

/-- one round of the loop -/
def round (w : Scenario) (t : Timeline) : Timeline × Option Ended :=
  if w.shutdown.isSent t.now then (t, some .stopped)
  else
    let rest := { t with readFaults := t.readFaults.tail }
    match t.readFaults with
    | true :: _ => (rest.list t.now .failed).reply w (.error Log.readFault)
    | _ => if (t.find w).isEmpty then rest.block w else rest.deliver w t.now

/-- at most so many rounds -/
def rounds (w : Scenario) : Nat → Timeline → Timeline × Ended
  | 0, t => (t, .stopped)
  | n + 1, t =>
    match t.round w with
    | (t, some e) => (t, e)
    | (t, none) => rounds w n t

/-- more rounds than a run can have: reads that fail, reads that find entries (each finds a later one, and every entry
adds at most one), and reads that find nothing -/
def roundLimit (w : Scenario) (t : Timeline) : Nat :=
  t.readFaults.length + 2 * t.consumer.replica.updates.lines.length +
    (match w.shutdown with
      | .atOnce => 0
      | .timed ms => Wait.lasting ms / max 1 (Wait.lasting w.block) + 1
      | .idle n => n) + 3

def run (w : Scenario) (t : Timeline) : Timeline × Ended := rounds w (roundLimit w t) t

end Timeline

end ReplicatedOrders
