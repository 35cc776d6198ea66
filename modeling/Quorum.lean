import Quorum.Binary.Command
import Quorum.Binary.Reader
import Quorum.Call
import Quorum.Cluster
import Quorum.Cluster.Groups
import Quorum.Cluster.Requests
import Quorum.Cluster.Time
import Quorum.CommandLine
import Quorum.Config
import Quorum.ConfigFile
import Quorum.Consensus.Batch
import Quorum.Consensus.Election
import Quorum.Consensus.Engine
import Quorum.Consensus.Fault
import Quorum.Consensus.Log
import Quorum.Consensus.Message
import Quorum.Consensus.Progress
import Quorum.Consensus.ReadIndex
import Quorum.Consensus.Replication
import Quorum.Consensus.Settings
import Quorum.Consensus.Step
import Quorum.Consensus.StoredLog
import Quorum.Demo
import Quorum.Ensemble
import Quorum.Failure
import Quorum.Group
import Quorum.Invocation
import Quorum.InvocationCache
import Quorum.Json.Document
import Quorum.Json.Form
import Quorum.Json.Forms
import Quorum.Json.GroupStatus
import Quorum.Json.Text
import Quorum.Json.Token
import Quorum.Json.Tree
import Quorum.Machine
import Quorum.Main
import Quorum.Manager
import Quorum.Network
import Quorum.Node
import Quorum.Object.AtomicRef
import Quorum.Object.Latch
import Quorum.Object.Parked
import Quorum.Object.Semaphore
import Quorum.Operation
import Quorum.Outcome
import Quorum.Query
import Quorum.ReadQueue
import Quorum.Replica
import Quorum.Session
import Quorum.SortedMap
import Quorum.Time
import Quorum.Value
import Quorum.Worker
import Quorum.Proofs.Semaphore.Serving
import Quorum.Proofs.Event
import Quorum.Proofs.Semaphore.Operations
import Quorum.Proofs.Semaphore.Reaction
import Quorum.Proofs.Semaphore.Sessions
import Quorum.Proofs.Semaphore.Queue
import Quorum.Proofs.Semaphore.Ledger
import Quorum.Proofs.Semaphore.Overdraft
import Quorum.Proofs.InvocationCache
import Quorum.Proofs.Turn
import Quorum.Proofs.Semaphore.Turns
import Quorum.Proofs.Latch.Reaction
import Quorum.Proofs.Machine.Answers
import Quorum.Proofs.Machine.Permits
import Quorum.Proofs.Machine.Overdraft
import Quorum.Proofs.Machine.Retry
import Quorum.Proofs.Machine.Custody
import Quorum.Proofs.Machine.Reports
import Quorum.Proofs.Machine.Queues
import Quorum.Proofs.Latch.Rounds
import Quorum.Proofs.Machine.Rounds
import Quorum.Proofs.Lease
import Quorum.Proofs.Machine.Leases
import Quorum.Proofs.Machine.Timeouts
import Quorum.Proofs.Timeout
import Quorum.Proofs.Worker.Callers
import Quorum.Proofs.Worker.Turns
import Quorum.Proofs.Machine.Expiry
import Quorum.Proofs.Machine.Departures
import Quorum.Proofs.Machine.Joining
import Quorum.Proofs.Counter
import Quorum.Proofs.ReadQueue.Context
import Quorum.Proofs.ReadQueue.Stages
import Quorum.Proofs.ReadQueue.History
import Quorum.Proofs.Machine.LeaseEnd
import Quorum.Proofs.Binary.Command
import Quorum.Proofs.Worker.Answered
import Quorum.Proofs.Cluster.Attempts
import Quorum.Proofs.Machine.Reading
import Quorum.Proofs.Machine.Refusals
import Quorum.Proofs.Machine.Objects
import Quorum.Proofs.Replica
import Quorum.Proofs.Node
import Quorum.Proofs.InvocationCache.Recent
import Quorum.Proofs.Semaphore.Relief
import Quorum.Proofs.Due
import Quorum.Proofs.Machine.Overdue
import Quorum.Proofs.Cluster.Registration
import Quorum.Proofs.Json.Text
import Quorum.Proofs.Json.Token
import Quorum.Proofs.Json.Tree
import Quorum.Proofs.Json.Form
import Quorum.Proofs.Json.Forms
import Quorum.Proofs.Cluster.Upkeep
import Quorum.Proofs.ReadQueue.Ready
import Quorum.Proofs.Startup
import Quorum.Proofs.Cluster.Creation
import Quorum.Proofs.Topology
import Quorum.Proofs.Registers
