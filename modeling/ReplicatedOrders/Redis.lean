/-
Redis: commands, replies and connections.

Connections are numbered from one in the order in which they are opened; one that the server closes at once has a
number too. A client keeps the commands that it sent, each with its connection. An error reply, a lost connection and
a reply of a kind that the command cannot use are all the same error, `redis`.
-/
import ReplicatedOrders.Error

namespace ReplicatedOrders.Redis

/-! ## Commands -/

inductive Command where
  /-- append an entry with one field -/
  | append (stream field payload : String)
  /-- read entries after an id, and wait for some if there are none -/
  | read (stream : String) (block count : UInt64) (after : EntryId)
  /-- the newest entry -/
  | newest (stream : String)
  | ping
deriving DecidableEq, Repr

namespace Command

def arguments : Command → List String
  | append stream field payload => ["XADD", stream, "*", field, payload]
  | read stream block count after =>
    ["XREAD", "BLOCK", toString block.toNat, "COUNT", toString count.toNat, "STREAMS", stream, after.text]
  | newest stream => ["XREVRANGE", stream, "+", "-", "COUNT", "1"]
  | ping => ["PING"]

end Command

/-! ## Replies -/

inductive Scalar where
  | nil
  | int (n : Int)
  | bulk (bytes : List UInt8)
  | status (text : String)
deriving DecidableEq, Repr

/-- the text of a value; nil and bytes that are not UTF-8 have none -/
def Scalar.text? : Scalar → Option String
  | nil => none
  | int n => some (toString n)
  | bulk bytes => String.fromUTF8? ⟨bytes.toArray⟩
  | status text => some text

/-- an entry as it comes from the server -/
structure RawEntry where
  id : String
  fields : List (String × Scalar)
deriving DecidableEq, Repr

inductive Reply where
  | scalar (v : Scalar)
  | entries (es : List RawEntry)
  | error
  /-- the server takes the command and closes the connection -/
  | dropped
deriving DecidableEq, Repr

namespace Reply

def text? : Reply → Option String
  | scalar v => v.text?
  | _ => none

/-- the entries of a reply; nil stands for none -/
def entries? : Reply → Option (List RawEntry)
  | entries es => some es
  | scalar .nil => some []
  | _ => none

end Reply

/-! ## Connections -/

/-- what becomes of a connection that is opened -/
inductive Link where
  | accepted
  /-- closed at once -/
  | refused
  /-- there is no server -/
  | unreachable
deriving DecidableEq, Repr

structure Sent where
  connection : Nat
  command : Command
deriving DecidableEq, Repr

structure Client where
  /-- connections opened so far -/
  opened : Nat := 0
  /-- commands sent so far, latest first -/
  sent : List Sent := []
deriving DecidableEq, Repr

namespace Client

/-- open a connection -/
def connect (c : Client) : Link → Client × Option Nat
  | .accepted => ({ c with opened := c.opened + 1 }, some (c.opened + 1))
  | .refused => ({ c with opened := c.opened + 1 }, none)
  | .unreachable => (c, none)

def send (c : Client) (connection : Nat) (command : Command) : Client :=
  { c with sent := ⟨connection, command⟩ :: c.sent }

/-- ask for a sign of life, always over a new connection -/
def ping (c : Client) (link : Link) (reply : Reply) : Client × Except ServiceError Unit :=
  match c.connect link with
  | (c, none) => (c, .error .redis)
  | (c, some n) => (c.send n .ping, if reply.text?.isSome then .ok () else .error .redis)

end Client

end ReplicatedOrders.Redis
