import ReplicatedOrders.Chain.TokenSource
import ReplicatedOrders.Consumer.Timeline
import ReplicatedOrders.Http
import ReplicatedOrders.Proofs.Amounts
import ReplicatedOrders.Proofs.Backoff
import ReplicatedOrders.Proofs.Batches
import ReplicatedOrders.Proofs.Bootstrap
import ReplicatedOrders.Proofs.Calls
import ReplicatedOrders.Proofs.Connections
import ReplicatedOrders.Proofs.Decimal
import ReplicatedOrders.Proofs.Delta
import ReplicatedOrders.Proofs.EntryIds
import ReplicatedOrders.Proofs.Failures
import ReplicatedOrders.Proofs.Feedback
import ReplicatedOrders.Proofs.Integers
import ReplicatedOrders.Proofs.Interleaving
import ReplicatedOrders.Proofs.Leniency
import ReplicatedOrders.Proofs.Lifetime
import ReplicatedOrders.Proofs.Lookups
import ReplicatedOrders.Proofs.NumberAmounts
import ReplicatedOrders.Proofs.Operations
import ReplicatedOrders.Proofs.Provenance
import ReplicatedOrders.Proofs.Race
import ReplicatedOrders.Proofs.ReadPaths
import ReplicatedOrders.Proofs.Reading
import ReplicatedOrders.Proofs.Recognized
import ReplicatedOrders.Proofs.Redelivery
import ReplicatedOrders.Proofs.Reload
import ReplicatedOrders.Proofs.Replay
import ReplicatedOrders.Proofs.Rounds
import ReplicatedOrders.Proofs.Starts
import ReplicatedOrders.Proofs.Tally
import ReplicatedOrders.Proofs.Timelines
import ReplicatedOrders.Readiness
import ReplicatedOrders.Redis.StreamLog
import ReplicatedOrders.Replica.Task
import ReplicatedOrders.Settings
