/-
What can go wrong outside a payload: in the services that the replica talks to, and in the replica's own work with
them.

Transport faults (`http`, `redis`) have no text here, because theirs is the transport's own. `message?` is the text of
every other error.
-/
import ReplicatedOrders.EntryId
import ReplicatedOrders.Json.Decode

namespace ReplicatedOrders

/-- a reply that came through but is of no use -/
inductive ResponseFault where
  | noResult (method : String)
  | blockNumber (hex : String)
  | notHex (text : String)
  | emptyHex (text : String)
  /-- a fault that was armed on purpose -/
  | injected (what : String)
deriving DecidableEq, Repr

namespace ResponseFault

def message : ResponseFault → String
  | noResult method => method ++ " returned no result"
  | blockNumber hex => "block number " ++ hex
  | notHex text => "not a hex quantity: " ++ text
  | emptyHex text => "empty hex quantity: " ++ text
  | injected what => what

end ResponseFault

/-- an error of a service -/
inductive ServiceError where
  | http
  | redis
  | invalidEntryId (text : String)
  | invalidAddress (text : String)
  | rpc (code : Int64) (text : String)
  | invalidResponse (fault : ResponseFault)
deriving DecidableEq, Repr

namespace ServiceError

def message? : ServiceError → Option String
  | http => none
  | redis => none
  | invalidEntryId text => some ("Invalid stream entry ID: " ++ text)
  | invalidAddress text => some ("Invalid address: " ++ text)
  | rpc code text => some ("RPC error " ++ toString code.toInt ++ ": " ++ text)
  | invalidResponse fault => some ("Invalid response: " ++ fault.message)

end ServiceError

/-- an order whose off-chain data does not fit its family -/
inductive ConversionFault where
  | notAnObject (hash : String)
  | missingField (hash field : String)
  | invalidAddress (hash field value : String)
  /-- refused by a source for a reason of its own -/
  | refused (text : String)
deriving DecidableEq, Repr

namespace ConversionFault

def message : ConversionFault → String
  | notAnObject hash => hash ++ ": offChainData is not an object"
  | missingField hash field => hash ++ ": missing '" ++ field ++ "'"
  | invalidAddress hash field value => hash ++ ": invalid '" ++ field ++ "' address " ++ value
  | refused text => text

end ConversionFault

/-- an error of the replica -/
inductive ReplicaError where
  | service (cause : ServiceError)
  | json (cause : Json.JsonError)
  | unknownOrderBook (name : String)
  | missingOffChainData (hash : String)
  | conversion (fault : ConversionFault)
  /-- a snapshot entry without a payload -/
  | emptySnapshot (id : EntryId)
  /-- the stream could not be read so many times in a row -/
  | readFailed (attempts : Nat) (cause : ServiceError)

namespace ReplicaError

def message? : ReplicaError → Option String
  | service cause => cause.message?.map ("External service error: " ++ ·)
  | json _ => none
  | unknownOrderBook name => some ("Order book not implemented: '" ++ name ++ "'")
  | missingOffChainData hash => some ("Order " ++ hash ++ " has no offChainData")
  | conversion fault => some ("Order conversion failed: " ++ fault.message)
  | emptySnapshot id => some ("Snapshot entry " ++ id.text ++ " has no payload")
  | readFailed attempts cause =>
    cause.message?.map fun text =>
      "Update stream read failed after " ++ toString attempts ++ " attempt(s): " ++ text

end ReplicaError

end ReplicatedOrders
