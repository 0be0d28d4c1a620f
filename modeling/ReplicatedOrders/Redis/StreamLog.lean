/-
A stream kept by a Redis server, with the payload of an entry under one field.

Reads that wait have a connection of their own, so that they never delay an append. Each of the two connections is
opened when it is needed and kept; it is given up after a command on it failed, but not because an entry has an id
that cannot be read.
-/
import ReplicatedOrders.Log
import ReplicatedOrders.Redis

namespace ReplicatedOrders.Redis

/-- the two connections of a log -/
inductive Role where
  | reader
  | writer
deriving DecidableEq, Repr

structure StreamLog where
  client : Client := {}
  stream : String
  field : String
  /-- how long a read waits for entries, in milliseconds -/
  block : UInt64 := 5000
  reader : Option Nat := none
  writer : Option Nat := none
deriving DecidableEq, Repr

namespace RawEntry

/-- the payload under a field; of a repeated field the last one counts -/
def payload? (e : RawEntry) (field : String) : Option String := (e.fields.reverse.lookup field).bind Scalar.text?

def entry (field : String) (e : RawEntry) : Except ServiceError LogEntry := do
  return ⟨← EntryId.parse e.id, e.payload? field⟩

end RawEntry

namespace StreamLog

/-! ## Connections -/

/-- the connection that is kept for a role -/
def kept (l : StreamLog) : Role → Option Nat
  | .reader => l.reader
  | .writer => l.writer

def keep (l : StreamLog) (role : Role) (connection : Option Nat) : StreamLog :=
  match role with
  | .reader => { l with reader := connection }
  | .writer => { l with writer := connection }

/-- the connection for a role, opened now if none is kept -/
def connect (l : StreamLog) (role : Role) (link : Link) : StreamLog × Option Nat :=
  match l.kept role with
  | some n => (l, some n)
  | none =>
    let (c, n) := l.client.connect link
    ({ l with client := c }.keep role n, n)

/-- one command and the use that is made of its reply; without a use the connection is given up -/
def exchange {α : Type} (l : StreamLog) (role : Role) (command : Command) (use : Reply → Option α) (link : Link)
    (reply : Reply) : StreamLog × Except ServiceError α :=
  match l.connect role link with
  | (l, none) => (l, .error .redis)
  | (l, some n) =>
    let l := { l with client := l.client.send n command }
    match use reply with
    | some a => (l, .ok a)
    | none => (l.keep role none, .error .redis)

/-! ## Operations -/

def append (l : StreamLog) (payload : String) (link : Link) (reply : Reply) :
    StreamLog × Except ServiceError EntryId :=
  let (l, result) := l.exchange .writer (.append l.stream l.field payload) Reply.text? link reply
  (l, result.bind EntryId.parse)

/-- at most `count` entries after an id -/
def readAfter (l : StreamLog) (after : EntryId) (count : UInt64) (link : Link) (reply : Reply) :
    StreamLog × Except ServiceError (List LogEntry) :=
  let (l, result) := l.exchange .reader (.read l.stream l.block count after) Reply.entries? link reply
  (l, result.bind fun es => es.mapM (RawEntry.entry l.field))

/-- the newest entry -/
def latest (l : StreamLog) (link : Link) (reply : Reply) : StreamLog × Except ServiceError (Option LogEntry) :=
  let (l, result) := l.exchange .writer (.newest l.stream) Reply.entries? link reply
  (l, result.bind fun es => match es with
    | [] => .ok none
    | e :: _ => (e.entry l.field).map some)

end StreamLog

end ReplicatedOrders.Redis
