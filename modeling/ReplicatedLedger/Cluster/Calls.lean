import ReplicatedLedger.Cluster.Basic
import ReplicatedLedger.CrossShard

/-!
Calls of a cluster by its clients.  A request that only reads is answered from what the server has
published; any other goes through the server's inbox, and its caller waits for a limited time.
-/

namespace ReplicatedLedger

/-- Why a call has no answer. -/
inductive CallError where
  | timeout (replica : ReplicaId) (after : Duration)
  | stopped (replica : ReplicaId)
  | unknownReplica (replica : ReplicaId)
  deriving DecidableEq, Repr

def CallError.message : CallError → String
  | timeout replica after => replica.text ++ " did not answer within " ++ after.text
  | stopped replica => replica.text ++ " is not running"
  | unknownReplica replica => "no replica " ++ replica.text ++ " in this cluster"

abbrev CallResult := Except CallError Response

namespace CallResult

/-- Whether another replica of the group may do better. -/
def isRetryable : CallResult → Bool
  | .ok response => response.error?.any (·.isRetryable)
  | .error _ => true

def isAcknowledged : CallResult → Bool
  | .ok response => response.isOk
  | .error _ => false

end CallResult

/-- Why a transfer cannot be put to any replica. -/
inductive UnroutableError where
  | unroutable (account : AccountId)
  deriving DecidableEq, Repr

def UnroutableError.message : UnroutableError → String
  | unroutable account => "account " ++ account.text ++ " is not owned by any shard"

/-- A request that waits for its answer. -/
structure Call where
  site : ReplicaId
  id : RequestId
  deadline : Duration
  deriving DecidableEq, Repr

/-- A request that goes to the replicas of a list in turn, until one of them can serve it. -/
structure Errand where
  request : Request
  /-- The replicas that are left to try. -/
  remaining : List ReplicaId
  /-- The call that is waited for, or the result. -/
  state : Call ⊕ CallResult

namespace Errand

/-- The time at which the caller gives up. -/
def deadline? (e : Errand) : Option Duration :=
  match e.state with
  | .inl call => some call.deadline
  | .inr _ => none

def result? (e : Errand) : Option CallResult :=
  match e.state with
  | .inl _ => none
  | .inr result => some result

/-- The earliest time at which a waiting caller gives up. -/
def firstDeadline? : List Errand → Option Duration
  | [] => none
  | e :: rest =>
    match e.deadline?, firstDeadline? rest with
    | some a, some b => some (if a ≤ b then a else b)
    | some a, none => some a
    | none, d => d

end Errand

namespace Cluster

/-! ### One call -/

/-- Makes a request of a replica. -/
def place (c : Cluster) (site : ReplicaId) (request : Request) : (Call ⊕ CallResult) × Cluster :=
  match c.servers.get? site with
  | none => (.inr (.error (.unknownReplica site)), c)
  | some server =>
    match server.published.answer? request with
    | some response => (.inr (.ok response), c)
    | none =>
      if server.isRunning then
        let id : RequestId := ⟨server.nextRequest⟩
        let counted := { server with nextRequest := server.nextRequest + 1 }
        (.inl ⟨site, id, c.now + c.requestTimeout⟩,
          { c with servers := c.servers.insert site counted }.post site (.request id request))
      else (.inr (.error (.stopped site)), c)

/-- The result of a call, if it has one by now. -/
def result? (c : Cluster) (call : Call) : Option CallResult :=
  match c.servers.get? call.site with
  | none => some (.error (.unknownReplica call.site))
  | some server =>
    match server.answers.get? call.id with
    | some response => some (.ok response)
    | none =>
      if !server.isRunning then some (.error (.stopped call.site))
      else if call.deadline ≤ c.now then some (.error (.timeout call.site c.requestTimeout))
      else none

/-! ### Errands -/

/-- Tries replicas in turn as far as their results are there at once. -/
def attempt (c : Cluster) (request : Request) (site : ReplicaId) :
    List ReplicaId → Errand × Cluster
  | [] =>
    let (state, c) := c.place site request
    (⟨request, [], state⟩, c)
  | next :: rest =>
    match c.place site request with
    | (.inr result, c) =>
      if result.isRetryable then c.attempt request next rest
      else (⟨request, next :: rest, .inr result⟩, c)
    | (.inl call, c) => (⟨request, next :: rest, .inl call⟩, c)

/-- Moves an errand on when its call has a result. -/
def advance (c : Cluster) (e : Errand) : Errand × Cluster :=
  match e.state with
  | .inr _ => (e, c)
  | .inl call =>
    match c.result? call, e.remaining with
    | none, _ => (e, c)
    | some result, [] => ({ e with state := .inr result }, c)
    | some result, next :: rest =>
      if result.isRetryable then c.attempt e.request next rest
      else ({ e with state := .inr result }, c)

/-- Carries a step out for each element of a list in turn. -/
def each {α β : Type} (f : Cluster → α → β × Cluster) (c : Cluster) : List α → List β × Cluster
  | [] => ([], c)
  | a :: rest =>
    let (b, c) := f c a
    let (bs, c) := each f c rest
    (b :: bs, c)

/-- One step, but the clock is not moved past a time, nor to an event that is due then. -/
def stepBefore (c : Cluster) (deadline : Duration) : Except Fault Cluster :=
  let waits := { c with agenda := c.agenda.advance deadline }
  match c.ready, c.agenda.firstTime? with
  | [], none => .ok waits
  | [], some time => if deadline ≤ time then .ok waits else return (← c.step?).getD waits
  | _ :: _, _ => return (← c.step?).getD waits

/-- Runs errands side by side until all have results, for at most `limit` steps. -/
def finishUpTo : Nat → Cluster → List Errand → Except Fault (List CallResult × Cluster)
  | 0, c, errands => .ok (errands.filterMap Errand.result?, c)
  | limit + 1, c, errands => do
    let (errands, c) := each advance c errands
    match Errand.firstDeadline? errands with
    | none => return (errands.filterMap Errand.result?, c)
    | some deadline => finishUpTo limit (← c.stepBefore deadline) errands

def finish (c : Cluster) (errands : List Errand) : Except Fault (List CallResult × Cluster) :=
  finishUpTo stepLimit c errands

/-- Puts requests to replicas at the same time, each with the replicas to fall back on. -/
def callAll (c : Cluster) (calls : List (ReplicaId × List ReplicaId × Request)) :
    Except Fault (List CallResult × Cluster) :=
  let (errands, c) := each (fun c call => c.attempt call.2.2 call.1 call.2.1) c calls
  c.finish errands

/-- Puts a request to one replica and waits for the result. -/
def call (c : Cluster) (site : ReplicaId) (request : Request) :
    Except Fault (CallResult × Cluster) := do
  let (results, c) ← c.callAll [(site, [], request)]
  return (results.head?.getD (.error (.unknownReplica site)), c)

/-! ### Transfers -/

def shardOf (c : Cluster) (a : AccountId) : Except UnroutableError ShardId :=
  match c.routing.shardOf? a with
  | some shard => .ok shard
  | none => .error (.unroutable a)

/-- The request to a shard's replicas in the order of the group. -/
def toShard (c : Cluster) (request : Request) (shard : ShardId) :
    Option (ReplicaId × List ReplicaId × Request) :=
  match c.routing.group shard with
  | site :: rest => some (site, rest, request)
  | [] => none

/-- Carries out a transfer within the sender's shard, on the first replica that can serve it. -/
def transferWithin (c : Cluster) (tid : Tid) (txn : Transaction) :
    Except Fault (Except UnroutableError CallResult × Cluster) :=
  match c.shardOf txn.sender with
  | .error e => .ok (.error e, c)
  | .ok shard => do
    let (results, c) ← c.callAll (c.toShard (.transfer tid txn) shard).toList
    return (match results with
      | result :: _ => .ok result
      | [] => .error (.unroutable txn.sender), c)

/-- Carries out a transfer across shards: asks a replica of each shard concerned for its vote, and
tells all replicas of these shards the decision. -/
def transferAcross (c : Cluster) (tid : Tid) (txn : Transaction) :
    Except Fault (Except UnroutableError (TransferReport CallResult) × Cluster) :=
  match (do let _ ← c.shardOf txn.sender; let _ ← c.shardOf txn.receiver) with
  | .error e => .ok (.error e, c)
  | .ok () => do
    let shards := c.routing.participants txn
    let (results, c) ← c.callAll (shards.filterMap (c.toShard (.prepare tid txn)))
    let votes := (shards.zip results).foldl
      (fun votes p => votes.recordResponse p.1 p.2.toOption) (VoteTally.start tid shards)
    let members := c.routing.members shards
    let (acks, c) ← c.callAll (members.map (·, [], votes.verdict.request tid))
    return (.ok ⟨votes.verdict, votes, .ofList (members.zip acks)⟩, c)

/-- The replicas that have not acknowledged a decision. -/
def unacknowledged (report : TransferReport CallResult) : List ReplicaId :=
  (report.acks.toList.filter (!CallResult.isAcknowledged ·.2)).map (·.1)

end Cluster

end ReplicatedLedger
