import ReplicatedLedger.Books.Basic
import ReplicatedLedger.Consensus.ReplicatedLog.Delivery

/-!
A replica: it orders the commands that clients submit in its copy of the shard's log, applies chosen
entries to its books in log order, and answers a client once the books show what became of the
command.
-/

namespace ReplicatedLedger

structure ReplicaPolicy where
  initialBalance : Amount := 10
  consensus : ConsensusPolicy := {}
  deriving DecidableEq, Inhabited

/-- Whether a request is answered by an acknowledgement or by a vote. -/
inductive ReplyKind where
  | ack
  | vote
  deriving DecidableEq, Repr, Inhabited

/-- A request that waits for its command to be chosen and applied. -/
structure PendingRequest where
  id : RequestId
  tid : Tid
  reply : ReplyKind
  deriving DecidableEq, Repr, Inhabited

namespace PendingRequest

def respond (r : PendingRequest) (response : Response) : Action := .respond r.id response

def fail (r : PendingRequest) (reason : LedgerError) : Action :=
  match r.reply with
  | .ack => r.respond (.error reason)
  | .vote => r.respond (.vote (.no reason))

/-- The answer to a request for something that holds already. -/
def settled (r : PendingRequest) : Action :=
  match r.reply with
  | .ack => r.respond (.ack none)
  | .vote => r.respond (.vote .yes)

end PendingRequest

structure Replica where
  log : ReplicatedLog
  books : Books
  /-- Requests whose proposals are under way. -/
  pending : SortedMap ProposalId PendingRequest := ∅
  /-- Requests whose commands are chosen and not yet applied, by slot. -/
  awaiting : SortedMap Slot (List PendingRequest) := ∅
  now : Duration := ⟨0⟩
  deriving DecidableEq

namespace Replica

def start (t : Topology) (policy : ReplicaPolicy) : Replica where
  log := { topology := t, policy := policy.consensus }
  books := .opening t policy.initialBalance

def id (r : Replica) : ReplicaId := r.log.replica

def shard (r : Replica) : ShardId := r.log.topology.shard

def partition (r : Replica) : Partition := r.log.partition

def pendingRequests (r : Replica) : Nat :=
  r.pending.size + r.awaiting.values.flatten.length

def withPartition (r : Replica) (p : Partition) : Replica :=
  { r with log := { r.log with partition := p } }

/-- Proposes a command, unless the check of the request against the books has settled the matter. -/
def consider (r : Replica) (request : PendingRequest) (command : Command) :
    Except LedgerError Books.Admission → Except Fault (Replica × List Action)
  | .error reason => .ok (r, [request.fail reason])
  | .ok .settled => .ok (r, [request.settled])
  | .ok .propose => do
    let (log, id, actions) ← r.log.propose command
    return ({ r with log := log, pending := r.pending.insert id request }, actions)

def onRequest (r : Replica) (id : RequestId) : Request → Except Fault (Replica × List Action)
  | .transfer tid txn => do
    r.consider ⟨id, tid, .ack⟩ (.transfer tid txn) (← r.books.checkTransfer tid txn)
  | .prepare tid txn => do
    r.consider ⟨id, tid, .vote⟩ (.prepare tid txn) (← r.books.checkPrepare tid txn)
  | .commit tid => r.consider ⟨id, tid, .ack⟩ (.commit tid) (r.books.checkCommit tid)
  | .abort tid => r.consider ⟨id, tid, .ack⟩ (.abort tid) (r.books.checkAbort tid)
  | .disconnect peers =>
    .ok (r.withPartition (r.partition.disconnect peers), [.respond id (.ack none)])
  | .reconnect peers => do
    let r := r.withPartition (r.partition.reconnect peers)
    return (r, (← r.log.requestCatchUp) ++ [.respond id (.ack none)])
  | .logs => .ok (r, [.respond id (.logs r.books.applied)])
  | .balance account => .ok (r, [.respond id (.ofBalance (r.books.balanceOf account))])

/-- Moves the request of a completed proposal on: to its slot, or back to the client. -/
def onCompletion (r : Replica) (c : Completion) : Replica × List Action :=
  match r.pending.get? c.id with
  | none => (r, [])
  | some request =>
    let r := { r with pending := r.pending.erase c.id }
    match c.result with
    | .ok slot =>
      let waiting := (r.awaiting.get? slot).getD []
      ({ r with awaiting := r.awaiting.insert slot (waiting ++ [request]) }, [])
    | .error reason => (r, [request.fail reason])

def onCompletions (r : Replica) : List Completion → Replica × List Action
  | [] => (r, [])
  | c :: rest =>
    let (r, actions) := r.onCompletion c
    let (r, more) := r.onCompletions rest
    (r, actions ++ more)

/-- The answer to a request whose command was chosen for `slot`.  A vote follows the state of the
transaction after everything that has been applied. -/
def answerApplied (b : Books) (slot : Slot) (request : PendingRequest) : Action :=
  match b.outcome? slot with
  | none => request.fail (.unknownTransaction request.tid)
  | some (.rejected reason) => request.fail (reason.toError request.tid)
  | some _ =>
    match request.reply with
    | .ack => request.respond (.ack (some slot))
    | .vote =>
      match b.participants.state? request.tid with
      | some .prepared | some .committed => request.respond (.vote .yes)
      | some .aborted => request.fail (.alreadyDecided request.tid)
      | none => request.fail (.unknownTransaction request.tid)

/-- Applies what has become applicable, and answers every request that this decides. -/
def settle (r : Replica) : Except Fault (Replica × List Action) := do
  let (log, entries) ← r.log.drainApplicable
  let books ← r.books.applyAll entries
  let (log, completions) := log.takeCompletions
  let (r, failures) := { r with log := log, books := books }.onCompletions completions
  let ready := r.awaiting.below r.books.nextSlot
  let awaiting := ready.foldl (fun m p => m.erase p.1) r.awaiting
  let answers := ready.flatMap fun p => p.2.map (answerApplied r.books p.1)
  return ({ r with awaiting := awaiting }, failures ++ answers)

/-- What an event leads to before anything is applied. -/
def onEvent (r : Replica) : Event → Except Fault (Replica × List Action)
  | .request id request => r.onRequest id request
  | e => (fun p => ({ r with log := p.1 }, p.2)) <$> r.log.handle e

/-- One event, with everything that follows from it at once. -/
def handle (r : Replica) (e : Event) : Except Fault (Replica × List Action) := do
  let (r, actions) ← r.onEvent e
  let (r, answers) ← r.settle
  return (r, actions ++ answers)

instance : Machine Replica where
  handle := handle
  setTime r now := { r with now := now }

def snapshot (r : Replica) : Books.Snapshot := r.books.snapshot

end Replica

end ReplicatedLedger
