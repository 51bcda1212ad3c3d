import ReplicatedLedger.CrossShard
import ReplicatedLedger.Replica
import ReplicatedLedger.Simulation.Basic

/-!
Requests made of a simulated deployment, with the simulation run until they are answered.
-/

namespace ReplicatedLedger

namespace Simulation

section Machines

variable {σ : Type}

def submit (s : Simulation σ) (site : ReplicaId) (request : Request) :
    Except Fault (RequestId × Simulation σ) := do
  let id : RequestId := ⟨s.nextRequest⟩
  return (id, { s with
    nextRequest := ← Word.sum s.nextRequest 1
    agenda := ← s.agenda.schedule site .zero (.request id request) })

def submitAll (s : Simulation σ) :
    List (ReplicaId × Request) → Except Fault (List (ReplicaId × RequestId) × Simulation σ)
  | [] => .ok ([], s)
  | (site, request) :: rest => do
    let (id, s) ← s.submit site request
    let (submitted, s) ← s.submitAll rest
    return ((site, id) :: submitted, s)

def takeResponse (s : Simulation σ) (id : RequestId) : Option Response × Simulation σ :=
  (s.responses.get? id, { s with responses := s.responses.erase id })

/-- The answers to submitted requests by replica; of several from one replica, the last. -/
def takeResponses (s : Simulation σ) :
    List (ReplicaId × RequestId) → List (ReplicaId × Option Response) × Simulation σ
  | [] => ([], s)
  | (site, id) :: rest =>
    let (response, s) := s.takeResponse id
    let (responses, s) := s.takeResponses rest
    ((site, response) :: responses, s)

variable [Machine σ]

/-- A call is given up after this much simulated time. -/
def callTimeout : Duration := .ofSeconds 10

/-- Runs until all requests are answered, no event is left, or the time for a call is over. -/
def runUntilAnswered (s : Simulation σ) (ids : List RequestId) : Except Fault (Simulation σ) :=
  let deadline := s.now + callTimeout
  runWhile (fun s => !ids.all s.responses.contains && s.agenda.isDue deadline) eventLimit s

def call (s : Simulation σ) (site : ReplicaId) (request : Request) :
    Except Fault (Option Response × Simulation σ) := do
  let (id, s) ← s.submit site request
  let s ← s.runUntilAnswered [id]
  return s.takeResponse id

def callAll (s : Simulation σ) (requests : List (ReplicaId × Request)) :
    Except Fault (SortedMap ReplicaId (Option Response) × Simulation σ) := do
  let (submitted, s) ← s.submitAll requests
  let s ← s.runUntilAnswered (submitted.map (·.2))
  let (responses, s) := s.takeResponses submitted
  return (.ofList responses, s)

def callEach (s : Simulation σ) (sites : List ReplicaId) (request : Request) :
    Except Fault (SortedMap ReplicaId (Option Response) × Simulation σ) :=
  s.callAll (sites.map (·, request))

/-- Records the answers to prepare requests, each as the vote of its replica's shard. -/
def collectVotes (routing : RoutingTable) (votes : VoteTally)
    (responses : List (ReplicaId × Option Response)) : VoteTally :=
  responses.foldl (fun votes p =>
    match routing.shardOfReplica? p.1 with
    | some shard => votes.recordResponse shard p.2
    | none => votes) votes

/-- Carries out a transfer across shards, asking `representatives` for the votes. -/
def transferAcrossVia (s : Simulation σ) (tid : Tid) (txn : Transaction)
    (representatives : List ReplicaId) :
    Except Fault (TransferReport (Option Response) × Simulation σ) := do
  let participants := s.routing.participants txn
  let (responses, s) ← s.callEach representatives (.prepare tid txn)
  let votes := collectVotes s.routing (.start tid participants) responses.toList
  let (acks, s) ← s.callEach (s.routing.members participants) (votes.verdict.request tid)
  return (⟨votes.verdict, votes, acks⟩, s)

def transferAcross (s : Simulation σ) (tid : Tid) (txn : Transaction) :
    Except Fault (TransferReport (Option Response) × Simulation σ) :=
  s.transferAcrossVia tid txn
    ((s.routing.participants txn).filterMap fun shard => (s.routing.group shard).head?)

end Machines

/-! ### Simulated replicas -/

def start (routing : RoutingTable) (network : Network) (policy : ReplicaPolicy) (seed : Word) :
    Except RoutingError (Simulation Replica) := do
  let replicas ← routing.replicas.mapM fun r =>
    (fun t => (r, Replica.start t policy)) <$> Topology.of routing r
  return {
    routing := routing
    network := network
    random := .ofSeed seed
    machines := .ofList replicas }

/-- The books of a shard as its most advanced replica keeps them. -/
def leadingBooks? (s : Simulation Replica) (shard : ShardId) : Option Books :=
  ((s.routing.group shard).filterMap s.machines.get?).foldl (fun best r =>
    match best with
    | some (b : Books) => if r.books.applied.length < b.applied.length then best else some r.books
    | none => some r.books) none

/-- The sum of all balances, each shard's taken from its most advanced replica. -/
def totalBalance (s : Simulation Replica) : Except Fault Amount := do
  Word.total (← (s.routing.shards.filterMap s.leadingBooks?).mapM (·.ledger.total))

end Simulation

end ReplicatedLedger
