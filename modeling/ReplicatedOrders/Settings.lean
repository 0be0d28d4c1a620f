/-
Settings: how a replica is configured by named variables.

A variable that is not set takes its default. Numbers are trimmed decimal numerals within the range of their field,
words are trimmed and read in any ASCII case. The first fault ends the reading: the numbers of the read policy, the
policy itself, the other numbers in the order of the fields, the order books at last.
-/
import ReplicatedOrders.Consumer
import ReplicatedOrders.Text.Piece

namespace ReplicatedOrders

inductive SettingsError where
  | number (key raw : String) (error : NumeralError)
  /-- retrying needs at least one attempt -/
  | noAttempts
  | unknownPolicy (word : String)
  /-- a piece of the list of order books that is no pair -/
  | notAPair (piece : String)
deriving DecidableEq, Repr

/-- a family and the exchange contract that its makers allow to spend -/
abbrev Spender := String × String

structure Settings where
  redisUrl : String
  updateStream : String
  snapshotStream : String
  rpcUrl : String
  httpPort : UInt16
  metricsPort : UInt16
  /-- seconds between two images; zero for none -/
  snapshotInterval : UInt64
  batchSize : UInt64
  /-- how long a read waits for entries, in milliseconds -/
  block : UInt64
  /-- pause after a batch, in milliseconds -/
  batchPause : UInt64
  policy : ReadPolicy
  /-- seconds between two looks for an image at the start -/
  snapshotRetry : UInt64
  requireSnapshot : Bool
  /-- seconds between two looks at a service that is not ready -/
  readinessInterval : UInt64
  enrichOnStart : Bool
  spenders : List Spender
deriving DecidableEq, Repr

/-! ## Names -/

/-- the variables that hold numbers -/
inductive NumberKey where
  | maxAttempts
  | baseDelay
  | httpPort
  | metricsPort
  | snapshotInterval
  | batchSize
  | block
  | batchPause
  | snapshotRetry
  | readinessInterval
deriving DecidableEq, Repr

namespace NumberKey

def name : NumberKey → String
  | maxAttempts => "READ_RETRY_MAX_ATTEMPTS"
  | baseDelay => "READ_RETRY_BASE_DELAY_MS"
  | httpPort => "HTTP_PORT"
  | metricsPort => "METRICS_PORT"
  | snapshotInterval => "SNAPSHOT_INTERVAL_SECS"
  | batchSize => "READ_BATCH_SIZE"
  | block => "READ_BLOCK_MS"
  | batchPause => "BATCH_PAUSE_MS"
  | snapshotRetry => "SNAPSHOT_RETRY_SECS"
  | readinessInterval => "READINESS_INTERVAL_SECS"

/-- the width of the number in bits -/
def bits : NumberKey → Nat
  | maxAttempts => 32
  | httpPort | metricsPort => 16
  | _ => 64

def default : NumberKey → Nat
  | maxAttempts => 10
  | baseDelay => 500
  | httpPort => 8084
  | metricsPort => 9094
  | snapshotInterval => 60
  | batchSize => 100
  | block => 5000
  | batchPause => 50
  | snapshotRetry => 5
  | readinessInterval => 5

end NumberKey

namespace SettingsError

def reason : SettingsError → String
  | number key raw e => key ++ "='" ++ raw ++ "': " ++ e.message
  | noAttempts => NumberKey.maxAttempts.name ++ " must be positive"
  | unknownPolicy word => "unknown READ_FAILURE_POLICY '" ++ word ++ "'"
  | notAPair piece => "expected name=address, got '" ++ piece ++ "'"

def message (e : SettingsError) : String := "Invalid configuration: " ++ e.reason

end SettingsError

/-! ## Values -/

/-- the read policy that a word names -/
def ReadPolicy.parse (word : String) (maxAttempts : UInt32) (baseDelay : Nat) : Except SettingsError ReadPolicy :=
  match Text.lower (Text.trim word) with
  | "fatal" => .ok .fatal
  | "retry" => if maxAttempts = 0 then .error .noAttempts else .ok (.retry maxAttempts baseDelay)
  | other => .error (.unknownPolicy other)

namespace Spenders

/-- a pair from a trimmed piece: both sides of the first `=` say something -/
def pair (piece : List Char) : Except SettingsError Spender :=
  match Text.cutAt '=' piece with
  | (name, some address) =>
    match Text.trimList name, Text.trimList address with
    | n :: ns, a :: as => .ok (String.ofList (n :: ns), String.ofList (a :: as))
    | _, _ => .error (.notAPair (String.ofList piece))
  | (_, none) => .error (.notAPair (String.ofList piece))

/-- pairs between commas; blank pieces are passed over -/
def parse (text : String) : Except SettingsError (List Spender) :=
  (((Text.pieces ',' text.toList).map Text.trimList).filter (· ≠ [])).mapM pair

end Spenders

namespace Settings

/-- variables by name -/
abbrev Lookup := String → Option String

/-- the words for yes -/
def isYes (word : String) : Bool :=
  match Text.lower (Text.trim word) with
  | "true" | "1" | "yes" => true
  | _ => false

/-- the number of a variable, which fits its bits -/
def number (vars : Lookup) (key : NumberKey) : Except SettingsError Nat :=
  match vars key.name with
  | none => .ok key.default
  | some raw =>
    match Numeral.parseBounded (Nat.pow 2 key.bits) (Text.trim raw) with
    | .ok n => .ok n
    | .error e => .error (.number key.name raw e)

def defaultSpenders : String := "zrx=0xDef1C0ded9bec7F1a1670819833240f027b25EfF"

def ofLookup (vars : Lookup) : Except SettingsError Settings := do
  let text (key default : String) : String := (vars key).getD default
  let maxAttempts ← number vars .maxAttempts
  let baseDelay ← number vars .baseDelay
  let policy ← ReadPolicy.parse (text "READ_FAILURE_POLICY" "fatal") (.ofNat maxAttempts) baseDelay
  let httpPort ← number vars .httpPort
  let metricsPort ← number vars .metricsPort
  let snapshotInterval ← number vars .snapshotInterval
  let batchSize ← number vars .batchSize
  let block ← number vars .block
  let batchPause ← number vars .batchPause
  let snapshotRetry ← number vars .snapshotRetry
  let readinessInterval ← number vars .readinessInterval
  let spenders ← Spenders.parse (text "ORDER_BOOK_SPENDERS" defaultSpenders)
  return {
    redisUrl := text "REDIS_URL" "redis://localhost:6379"
    updateStream := text "UPDATE_STREAM" "updateStream"
    snapshotStream := text "SNAPSHOT_STREAM" "snapshotStream"
    rpcUrl := text "RPC_URL" "http://localhost:8545"
    httpPort := .ofNat httpPort
    metricsPort := .ofNat metricsPort
    snapshotInterval := .ofNat snapshotInterval
    batchSize := .ofNat batchSize
    block := .ofNat block
    batchPause := .ofNat batchPause
    policy
    snapshotRetry := .ofNat snapshotRetry
    requireSnapshot := isYes (text "REQUIRE_SNAPSHOT" "false")
    readinessInterval := .ofNat readinessInterval
    enrichOnStart := isYes (text "ENRICH_ON_START" "true")
    spenders }

/-- the settings of the consumer -/
def consumer (s : Settings) : ConsumerConfig := ⟨s.batchSize, s.batchPause.toNat, s.policy⟩

end Settings

end ReplicatedOrders
