import ReplicatedLedger.Agenda.Basic
import ReplicatedLedger.Agenda.EventKey
import ReplicatedLedger.Ballot
import ReplicatedLedger.Books.Basic
import ReplicatedLedger.Books.Ledger
import ReplicatedLedger.Books.Participant
import ReplicatedLedger.Cluster.Basic
import ReplicatedLedger.Cluster.Calls
import ReplicatedLedger.Cluster.Server
import ReplicatedLedger.CommandLine.Invocation
import ReplicatedLedger.CommandLine.Option
import ReplicatedLedger.CommandLine.Session
import ReplicatedLedger.Config.Basic
import ReplicatedLedger.Config.Document
import ReplicatedLedger.Config.Wire
import ReplicatedLedger.Consensus.Acceptor
import ReplicatedLedger.Consensus.Policy
import ReplicatedLedger.Consensus.Proposal
import ReplicatedLedger.Consensus.ReplicatedLog.Basic
import ReplicatedLedger.Consensus.ReplicatedLog.Delivery
import ReplicatedLedger.Consensus.ReplicatedLog.Proposing
import ReplicatedLedger.CrossShard
import ReplicatedLedger.Duration
import ReplicatedLedger.Entry
import ReplicatedLedger.Event
import ReplicatedLedger.FieldText
import ReplicatedLedger.FieldText.Response
import ReplicatedLedger.Files
import ReplicatedLedger.Identifier
import ReplicatedLedger.Json.Basic
import ReplicatedLedger.Json.Decimal
import ReplicatedLedger.Json.Token
import ReplicatedLedger.LedgerError
import ReplicatedLedger.Main
import ReplicatedLedger.Message
import ReplicatedLedger.MessagePool
import ReplicatedLedger.Numeral
import ReplicatedLedger.Partition
import ReplicatedLedger.Random
import ReplicatedLedger.Replica
import ReplicatedLedger.Request
import ReplicatedLedger.Routing
import ReplicatedLedger.Simulation.Basic
import ReplicatedLedger.Simulation.Calls
import ReplicatedLedger.Simulation.Network
import ReplicatedLedger.SortedMap
import ReplicatedLedger.Toml.Basic
import ReplicatedLedger.Toml.Document
import ReplicatedLedger.Toml.Scalar
import ReplicatedLedger.Toml.Text
import ReplicatedLedger.Topology
import ReplicatedLedger.Trace
import ReplicatedLedger.Transaction
import ReplicatedLedger.VoteTally
import ReplicatedLedger.Wire
import ReplicatedLedger.Word
import ReplicatedLedger.Proofs.Consensus.ChosenEntries
import ReplicatedLedger.Proofs.Consensus.Coherence
import ReplicatedLedger.Proofs.Consensus.Docket
import ReplicatedLedger.Proofs.Consensus.Proposing
import ReplicatedLedger.Proofs.Consensus.Backlog
import ReplicatedLedger.Proofs.Consensus.Handling
import ReplicatedLedger.Proofs.Consensus.Group
import ReplicatedLedger.Proofs.Consensus.Voting
import ReplicatedLedger.Proofs.Consensus.Safety
import ReplicatedLedger.Proofs.Consensus.SafetySteps
import ReplicatedLedger.Proofs.Consensus.Agreement
import ReplicatedLedger.Proofs.Books.Replay
import ReplicatedLedger.Proofs.Books.Effect
import ReplicatedLedger.Proofs.Replica.Handling
import ReplicatedLedger.Proofs.Replica.Agreement
import ReplicatedLedger.Proofs.Books.Ledger
import ReplicatedLedger.Proofs.Books.Tally
import ReplicatedLedger.Proofs.Books.Reservations
import ReplicatedLedger.Proofs.Books.Openings
import ReplicatedLedger.Proofs.Books.Funding
import ReplicatedLedger.Proofs.Routing
import ReplicatedLedger.Proofs.Routing.Uniform
import ReplicatedLedger.Proofs.Books.Trail
import ReplicatedLedger.Proofs.Books.Conservation
import ReplicatedLedger.Proofs.Books.Reconciliation
import ReplicatedLedger.Proofs.Consensus.Origin
import ReplicatedLedger.Proofs.Consensus.Submission
import ReplicatedLedger.Proofs.Consensus.Standing
import ReplicatedLedger.Proofs.Consensus.Contiguity
import ReplicatedLedger.Proofs.Consensus.Attribution
import ReplicatedLedger.Proofs.Replica.Requests
import ReplicatedLedger.Proofs.Books.Evidence
import ReplicatedLedger.Proofs.Replica.Answers
import ReplicatedLedger.Proofs.Replica.Career
import ReplicatedLedger.Proofs.Replica.Bookkeeping
import ReplicatedLedger.Proofs.Replica.History
import ReplicatedLedger.Proofs.Replica.Abort
import ReplicatedLedger.Proofs.Replica.Refusal
import ReplicatedLedger.Proofs.Replica.Trails
import ReplicatedLedger.Proofs.Replica.Isolation
import ReplicatedLedger.Proofs.Simulation.Running
import ReplicatedLedger.Proofs.Simulation.Shards
import ReplicatedLedger.Proofs.Simulation.Transfer
import ReplicatedLedger.Proofs.Simulation.Atomicity
import ReplicatedLedger.Proofs.Simulation.Holdings
import ReplicatedLedger.Proofs.Simulation.Settlement
import ReplicatedLedger.Proofs.Json.Lexing
import ReplicatedLedger.Proofs.Json.Reading
import ReplicatedLedger.Proofs.Wire
import ReplicatedLedger.Proofs.Replica.Votes
import ReplicatedLedger.Proofs.Consensus.Completion
import ReplicatedLedger.Proofs.Consensus.Timers
import ReplicatedLedger.Proofs.Books.Lifecycle
import ReplicatedLedger.Proofs.Books.Compaction
import ReplicatedLedger.Proofs.Replica.Admission
import ReplicatedLedger.Proofs.Consensus.Allowance
import ReplicatedLedger.Proofs.Consensus.Attempts
import ReplicatedLedger.Proofs.Routing.Partition
import ReplicatedLedger.Proofs.Cluster.Reading
import ReplicatedLedger.Proofs.Consensus.Learning
import ReplicatedLedger.Proofs.Consensus.Company
import ReplicatedLedger.Proofs.Consensus.CatchUp
import ReplicatedLedger.Proofs.Consensus.Exchange
import ReplicatedLedger.Proofs.Agenda
import ReplicatedLedger.Proofs.Simulation.Scheduling
import ReplicatedLedger.Proofs.Config
import ReplicatedLedger.Proofs.Books.Independence
import ReplicatedLedger.Proofs.Consensus.Representation
import ReplicatedLedger.Proofs.Consensus.Pursuit
import ReplicatedLedger.Proofs.Consensus.Ballots
