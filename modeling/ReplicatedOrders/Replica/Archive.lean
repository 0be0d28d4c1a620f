/-
The archive: writing images of the store to the snapshot stream, and starting from the newest one.

Only the newest entry of the stream is ever read. Starting looks at it again and again until there is an image that can
be read, or until the stream is found empty where an image is not required; every other look, whatever its fault, is
followed by another one after a fixed delay.
- `boot_eq_ofLooks`: looking at a log until there is a start gives what the list of all looks gives.
-/
import ReplicatedOrders.Replica
import ReplicatedOrders.Wait

namespace ReplicatedOrders

/-- the newest entry of a stream, if it has any, or why it was not seen -/
abbrev Look := Except ServiceError (Option LogEntry)

/-- where a replica starts -/
structure Start where
  store : Store
  /-- the entry of the image, or nothing if the stream was empty -/
  image : Option EntryId

/-- a start, or nothing so far, and the number of looks that it took -/
structure Boot where
  start : Option Start
  looks : Nat

namespace Snapshot

/-- the image in the newest entry of the stream -/
def ofLook : Look → Except ReplicaError (Option (EntryId × Snapshot))
  | .error e => .error (.service e)
  | .ok none => .ok none
  | .ok (some ⟨id, none⟩) => .error (.emptySnapshot id)
  | .ok (some ⟨id, some payload⟩) =>
    match decode payload with
    | .ok image => .ok (some (id, image))
    | .error e => .error (.json e)

end Snapshot

namespace Start

/-- the start that one look allows, if any -/
def ofLook (required : Bool) (look : Look) : Option Start :=
  match Snapshot.ofLook look with
  | .ok (some (id, image)) => some ⟨.ofSnapshot image, some id⟩
  | .ok none => if required then none else some ⟨{}, none⟩
  | .error _ => none

end Start

namespace Boot

/-- take the first look that allows a start -/
def ofLooks (required : Bool) : List Look → Boot
  | [] => ⟨none, 0⟩
  | look :: looks =>
    match Start.ofLook required look with
    | some s => ⟨some s, 1⟩
    | none => let b := ofLooks required looks; ⟨b.start, b.looks + 1⟩

/-- the times of the looks -/
def times (b : Boot) (delay : Nat) : List Nat := (List.range b.looks).map (· * Wait.lasting delay)

/-- the time from the first look to the start, or to the time limit if there is none -/
def duration (b : Boot) (delay limit : Nat) : Nat :=
  match b.start with
  | some _ => (b.looks - 1) * Wait.lasting delay
  | none => Wait.lasting limit

end Boot

namespace Replica

/-- append an image of the store; the store is locked until the append is done -/
def publish (r : Replica) (createdAt : Int64) : Replica × Except ReplicaError EntryId :=
  match r.snapshots.append (some (r.store.snapshot createdAt).text) with
  | (log, .ok id) =>
    ({ r with snapshots := log, counters := { r.counters with published := r.counters.published + 1 } }, .ok id)
  | (log, .error e) => ({ r with snapshots := log }, .error (.service e))

/-- look at the newest image once -/
def newestImage (r : Replica) (now : Nat) : Replica × Except ReplicaError (Option (EntryId × Snapshot)) :=
  let (log, look) := r.snapshots.latest now
  ({ r with snapshots := log }, Snapshot.ofLook look)

end Replica

namespace Log

/-- so many looks at the newest entry, the first now and the others after a delay each -/
def looks (l : Log) (delay : Nat) : Nat → Nat → List Look
  | 0, _ => []
  | n + 1, now => let (l, look) := l.latest now; look :: looks l delay n (now + Wait.lasting delay)

/-- so many looks are made until a time limit, the one due at the limit included; without a delay time stands still, and
the first look after the armed faults is like all later ones -/
def lookCount (l : Log) (delay limit : Nat) : Nat :=
  if delay = 0 then l.failingLooks + l.lookFaults.length + 1 else Wait.lasting limit / Wait.lasting delay + 1

/-- look until there is a start, at most so many times; `done` looks were made before -/
def bootFrom (l : Log) (required : Bool) (delay : Nat) : Nat → Nat → Nat → Boot
  | 0, done, _ => ⟨none, done⟩
  | n + 1, done, now =>
    let (l, look) := l.latest now
    match Start.ofLook required look with
    | some s => ⟨some s, done + 1⟩
    | none => l.bootFrom required delay n (done + 1) (now + Wait.lasting delay)

/-- look from now on until there is a start, or until the time limit -/
def boot (l : Log) (required : Bool) (delay limit now : Nat) : Boot :=
  l.bootFrom required delay (l.lookCount delay limit) 0 now

theorem bootFrom_eq_ofLooks (l : Log) (required : Bool) (delay n done now : Nat) :
    l.bootFrom required delay n done now =
      let b := Boot.ofLooks required (l.looks delay n now)
      ⟨b.start, done + b.looks⟩ := by
  induction n generalizing l done now with
  | zero => rfl
  | succ n ih =>
    simp only [bootFrom, looks, Boot.ofLooks]
    cases Start.ofLook required (l.latest now).2 with
    | some s => rfl
    | none => simp only [ih, Nat.add_assoc, Nat.add_comm 1]

theorem boot_eq_ofLooks (l : Log) (required : Bool) (delay limit now : Nat) :
    l.boot required delay limit now = Boot.ofLooks required (l.looks delay (l.lookCount delay limit) now) := by
  simp [boot, bootFrom_eq_ofLooks]

/-- the log after so many looks -/
def afterLooks (l : Log) (n : Nat) : Log :=
  { l with failingLooks := l.failingLooks - n, lookFaults := l.lookFaults.drop (n - l.failingLooks) }

end Log

end ReplicatedOrders
