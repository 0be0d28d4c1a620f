/-
The consumer: reads the update stream in batches and applies every entry in order.

`Consumer.afterRead` is one round of the loop after a read came back. A batch is applied as a whole and resets the
count of failures, and so does an empty reply. A failed read is counted; under the policy `retry` it is followed by a
delay that doubles with every failure in a row, up to `maxBackoff`, until so many failures in a row end the run, and
under `fatal` the first one does.
-/
import ReplicatedOrders.Replica.Intake

namespace ReplicatedOrders

/-! ## Delays -/

/-- the longest delay between two reads, in milliseconds -/
def maxBackoff : Nat := 30000

/-- the longest duration that a delay can have, in milliseconds -/
def maxDuration : Nat := (UInt64.size - 1) * 1000 + 999

/-- a power of two with 32 bits; the largest number of 32 bits stands for every greater one -/
def doubling (n : Nat) : Nat := if n < 32 then Nat.pow 2 n else UInt32.size - 1

/-- the delay after so many failures in a row -/
def backoff (base attempt : Nat) : Nat := min (min (base * doubling (attempt - 1)) maxDuration) maxBackoff

/-! ## The loop -/

/-- what a failed read leads to -/
inductive ReadPolicy where
  | fatal
  | retry (maxAttempts : UInt32) (baseDelay : Nat)
deriving DecidableEq, Repr

structure ConsumerConfig where
  batchSize : UInt64 := 100
  /-- pause after a batch that is not empty -/
  pause : Nat := 50
  policy : ReadPolicy := .fatal
deriving DecidableEq, Repr

structure Consumer where
  replica : Replica
  /-- failed reads in a row -/
  failures : Nat := 0

/-- what the loop does after a read -/
inductive Next where
  | read
  /-- wait before the next read, without a look at the shutdown signal -/
  | pause (ms : Nat)
  /-- wait before the next read, or until the shutdown signal -/
  | backoff (ms : Nat)
  | giveUp (e : ReplicaError)

/-- the reply to a read -/
abbrev Batch := Except ServiceError (List LogEntry)

namespace ReadPolicy

/-- the delay before the next read after so many failures in a row, or nothing to give up -/
def delay? (p : ReadPolicy) (failures : Nat) : Option Nat :=
  match p with
  | fatal => none
  | retry maxAttempts base =>
    if failures < maxAttempts.toNat then some (ReplicatedOrders.backoff base failures) else none

end ReadPolicy

namespace Consumer

def afterRead (cfg : ConsumerConfig) (g : Registry) (c : Consumer) : Batch → Consumer × Next
  | .ok [] => ({ c with failures := 0 }, .read)
  | .ok es =>
    ({ replica := (c.replica.processAll g es).gauge, failures := 0 }, if cfg.pause = 0 then .read else .pause cfg.pause)
  | .error e =>
    let n := c.failures + 1
    match cfg.policy.delay? n with
    | some ms => ({ c with failures := n }, .backoff ms)
    | none => ({ c with failures := n }, .giveUp (.readFailed n e))

/-- rounds with these replies, up to the one that ends the run -/
def rounds (cfg : ConsumerConfig) (g : Registry) : Consumer → List Batch → Consumer × Option ReplicaError
  | c, [] => (c, none)
  | c, b :: bs =>
    match c.afterRead cfg g b with
    | (c, .giveUp e) => (c, some e)
    | (c, _) => rounds cfg g c bs

end Consumer

end ReplicatedOrders
