/-
Tasks: the work of several parties on one replica, cut into steps no larger than a critical section.

A step that needs the store holds its lock from beginning to end; questions to a source and appends to the update
stream are steps without the lock. `Step.run` does one step and says which one follows, or gives the answer of the
task.

`Turns.run` is the schedule of a fair lock: tasks wait in a queue, the one at the front does its next locked step and
everything that it can do without the lock after it, and goes to the back of the queue if it needs the lock again.
-/
import ReplicatedOrders.Replica.Archive
import ReplicatedOrders.Replica.Intake

namespace ReplicatedOrders

/-- a step; a task is named by its first step -/
inductive Step where
  /-- the critical section of an entry -/
  | accept (e : LogEntry)
  /-- the critical section that looks up an order to enrich -/
  | lookup (hash : String)
  /-- the question to the source, without the lock -/
  | ask (hash : String) (o : Order)
  /-- a write of the source, and what follows it -/
  | write (hash : String) (w : StoreWrite) (ws : List StoreWrite) (reply : Except ReplicaError OnChainData)
  | merge (hash : String) (data : OnChainData)
  /-- the append of new on-chain data, without the lock -/
  | announce (hash : String) (data : OnChainData)
  | publish (createdAt : Int64)
  | get (hash : String)
  | delete (hash : String)
  | advance (id : EntryId)
  | size

/-- what a finished task gives -/
inductive Answer where
  | done
  | enriched (result : Except ReplicaError Enriched)
  /-- the new entry of the snapshot stream and its image -/
  | published (result : Except ReplicaError (EntryId × Snapshot))
  | order (o : Option Order)
  | moved (b : Bool)
  | size (n : Nat)

namespace Step

/-- the step needs the store -/
def locks : Step → Bool
  | ask .. | announce .. => false
  | _ => true

/-- what follows the writes of a source -/
def afterWrites (r : Replica) (hash : String) (reply : Except ReplicaError OnChainData) :
    List StoreWrite → Replica × Except Answer Step
  | w :: ws => (r, .ok (write hash w ws reply))
  | [] =>
    match reply with
    | .error e => (r.countFailed, .error (.enriched (.error e)))
    | .ok data => (r, .ok (merge hash data))

/-- do one step: the next step of the task, or its answer -/
def run (g : Registry) (r : Replica) : Step → Replica × Except Answer Step
  | accept e =>
    match r.accept e with
    | (r, none) => (r, .error .done)
    | (r, some hash) => (r, .ok (lookup hash))
  | lookup hash =>
    match r.store.lookup hash with
    | .settled o => (r, .error (.enriched (.ok o)))
    | .incomplete o => (r, .ok (ask hash o))
  | ask hash o => let (r, fetched) := r.ask g o; afterWrites r hash fetched.reply fetched.writes
  | write hash w ws reply => afterWrites (r.write w) hash reply ws
  | merge hash data =>
    match r.merge hash data with
    | (r, true) => (r, .ok (announce hash data))
    | (r, false) => (r, .error (.enriched (.ok .missing)))
  | announce hash data => (r.announce hash data, .error (.enriched (.ok .enriched)))
  | publish createdAt =>
    match r.publish createdAt with
    | (r', .ok id) => (r', .error (.published (.ok (id, r.store.snapshot createdAt))))
    | (r', .error e) => (r', .error (.published (.error e)))
  | get hash => (r, .error (.order (r.store.get? hash)))
  | delete hash => let (s, o) := r.store.delete hash; ({ r with store := s }, .error (.order o))
  | advance id => let (s, b) := r.store.advance id; ({ r with store := s }, .error (.moved b))
  | size => (r, .error (.size r.store.size))

end Step

/-! ## The schedule of a fair lock -/

/-- a task that waits for the lock: its number and its next step -/
structure Waiting where
  task : Nat
  step : Step

/-- tasks in the order in which they get the lock, and the answers so far -/
structure Turns where
  replica : Replica
  queue : List Waiting
  answers : List (Nat × Answer) := []

namespace Turns

/-- do steps until the lock is needed again; a task has at most two steps in a row without it -/
def free (g : Registry) : Nat → Replica → Step → Replica × Except Answer Step
  | 0, r, s => (r, .ok s)
  | n + 1, r, s =>
    if s.locks then (r, .ok s)
    else match s.run g r with
      | (r, .ok s) => free g n r s
      | (r, .error a) => (r, .error a)

/-- one turn: the locked step of the task at the front, and what it does without the lock -/
def turn (g : Registry) (t : Turns) : Turns :=
  match t.queue with
  | [] => t
  | w :: ws =>
    let (r, next) := match w.step.run g t.replica with
      | (r, .ok s) => free g 2 r s
      | (r, .error a) => (r, .error a)
    match next with
    | .ok s => { t with replica := r, queue := ws ++ [⟨w.task, s⟩] }
    | .error a => { t with replica := r, queue := ws, answers := (w.task, a) :: t.answers }

/-- at most so many turns -/
def run (g : Registry) : Nat → Turns → Turns
  | 0, t => t
  | n + 1, t => if t.queue.isEmpty then t else run g n (t.turn g)

end Turns

end ReplicatedOrders
