/-
Streams: append-only logs of entries, each with one payload that may be missing.

`Log` is a stream held in memory. An appended entry gets the id one millisecond after the greatest time in the log. An
entry has a time from which readers see it. Faults can be armed: the next so many appends or looks at the newest entry,
and some of the appends or looks after those, then fail.
-/
import ReplicatedOrders.Error

namespace ReplicatedOrders

/-- the id that a text names -/
def EntryId.parse (text : String) : Except ServiceError EntryId :=
  match parse? text with
  | some id => .ok id
  | none => .error (.invalidEntryId text)

structure LogEntry where
  id : EntryId
  payload : Option String
deriving DecidableEq, Repr

/-- a line of a log: an entry and the time in milliseconds from which it is seen -/
structure LogLine where
  entry : LogEntry
  since : Nat := 0
deriving DecidableEq, Repr

structure Log where
  lines : List LogLine := []
  /-- so many appends still fail -/
  failingAppends : Nat := 0
  /-- which of the appends after those fail; later ones do not -/
  appendFaults : List Bool := []
  /-- so many looks at the newest entry still fail -/
  failingLooks : Nat := 0
  /-- which of the looks after those fail; later ones do not -/
  lookFaults : List Bool := []
deriving DecidableEq, Repr

namespace Log

def appendFault : ServiceError := .invalidResponse (.injected "injected append failure")

def readFault : ServiceError := .invalidResponse (.injected "injected read failure")

def entries (l : Log) : List LogEntry := l.lines.map LogLine.entry

/-- the id of the next appended entry -/
def nextId (l : Log) : EntryId :=
  match l.lines.map fun s => s.entry.id.millis.toNat with
  | [] => ⟨1, 0⟩
  | ms => ⟨UInt64.ofNat (ms.foldl max 0 + 1), 0⟩

/-- put an entry at the end -/
def push (l : Log) (s : LogLine) : Log := { l with lines := l.lines ++ [s] }

/-- append a payload under the next id -/
def append (l : Log) (payload : Option String) : Log × Except ServiceError EntryId :=
  match l.failingAppends with
  | n + 1 => ({ l with failingAppends := n }, .error appendFault)
  | 0 =>
    let rest := { l with appendFaults := l.appendFaults.tail }
    match l.appendFaults with
    | true :: _ => (rest, .error appendFault)
    | _ => (rest.push ⟨⟨l.nextId, payload⟩, 0⟩, .ok l.nextId)

/-- the entries that are seen at a time -/
def visible (l : Log) (now : Nat) : List LogEntry := (l.lines.filter (·.since ≤ now)).map LogLine.entry

/-- at most `count` of the entries seen at a time, after an id, in the order of the log -/
def readAfter (l : Log) (now : Nat) (after : EntryId) (count : Nat) : List LogEntry :=
  ((l.visible now).filter (after < ·.id)).take count

/-- the newest entry seen at a time, that is the last one in the order of the log -/
def latest (l : Log) (now : Nat) : Log × Except ServiceError (Option LogEntry) :=
  match l.failingLooks with
  | n + 1 => ({ l with failingLooks := n }, .error readFault)
  | 0 =>
    let rest := { l with lookFaults := l.lookFaults.tail }
    match l.lookFaults with
    | true :: _ => (rest, .error readFault)
    | _ => (rest, .ok (l.visible now).getLast?)

end Log

end ReplicatedOrders
