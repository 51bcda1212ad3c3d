import ReplicatedLedger.Books.Participant
import ReplicatedLedger.Request

/-!
The books of a shard: balances, transfers across shards, applied transfers within the shard, and the
audit trail.  They change only by applying chosen log entries, and every replica that applies the
same commands keeps the same books.
-/

namespace ReplicatedLedger

structure Books where
  topology : Topology
  ledger : Ledger
  participants : Participants := {}
  /-- The transfers within the shard that took effect. -/
  transfers : SortedMap Tid Transaction := ∅
  /-- Every entry applied, with what it did. -/
  applied : List AppliedEntry := []
  deriving DecidableEq

namespace Books

/-- Fresh books, in which each account of the shard holds `balance`. -/
def opening (t : Topology) (balance : Amount) : Books where
  topology := t
  ledger := .opening (t.routing.accounts t.shard) balance

def nextSlot (b : Books) : Slot := ⟨UInt64.ofNat b.applied.length⟩

/-- What the entry at a position of the audit trail did. -/
def outcome? (b : Books) (s : Slot) : Option Outcome :=
  (b.applied[s.index.toNat]?).map (·.outcome)

def requireOwned (b : Books) (a : AccountId) : Except LedgerError Unit :=
  if b.topology.owns a then .ok () else .error (.invalidShardRouting a b.topology.shard)

def balanceOf (b : Books) (a : AccountId) : Except LedgerError Amount :=
  (fun _ => b.ledger.balance a) <$> b.requireOwned a

/-! ### Before a command is proposed

A request is checked against the books as they stand.  The check only tells whether a proposal is
worth the effort: the same rules decide again when the entry is applied. -/

inductive Admission where
  /-- The command is worth proposing. -/
  | propose
  /-- What the request asks for holds already. -/
  | settled
  deriving DecidableEq, Repr

def checkFunds (b : Books) (tid : Tid) (txn : Transaction) :
    Except Fault (Except LedgerError Admission) := do
  match ← b.participants.fundingShortfall? b.ledger tid txn with
  | some reason => return .error (reason.toError tid)
  | none => return .ok .propose

def checkTransfer (b : Books) (tid : Tid) (txn : Transaction) :
    Except Fault (Except LedgerError Admission) :=
  match (do b.requireOwned txn.sender; b.requireOwned txn.receiver) with
  | .error e => .ok (.error e)
  | .ok () =>
    match b.transfers.get? tid with
    | some known => .ok (if known = txn then .ok .settled else .error (.transactionConflict tid))
    | none =>
      if (b.participants.find? tid).isSome then .ok (.error (.transactionConflict tid))
      else b.checkFunds tid txn

def checkPrepare (b : Books) (tid : Tid) (txn : Transaction) :
    Except Fault (Except LedgerError Admission) :=
  if !b.topology.owns txn.sender && !b.topology.owns txn.receiver then
    .ok (.error (.invalidShardRouting txn.sender b.topology.shard))
  else if b.transfers.contains tid then .ok (.error (.transactionConflict tid))
  else
    match b.participants.find? tid with
    | some r =>
      if r.txn = txn then
        .ok (if r.state = .aborted then .error (.alreadyDecided tid) else .ok .settled)
      else .ok (.error (.transactionConflict tid))
    | none =>
      if b.topology.owns txn.sender then b.checkFunds tid txn else .ok (.ok .propose)

/-- A commit for an unknown transaction is proposed, since this replica may be behind. -/
def checkCommit (b : Books) (tid : Tid) : Except LedgerError Admission :=
  match b.participants.state? tid with
  | some .committed => .ok .settled
  | some .aborted => .error (.alreadyDecided tid)
  | some .prepared | none => .ok .propose

def checkAbort (b : Books) (tid : Tid) : Except LedgerError Admission :=
  match b.participants.state? tid with
  | some .prepared => .ok .propose
  | some .aborted | none => .ok .settled
  | some .committed => .error (.alreadyDecided tid)

/-! ### Applying entries -/

/-- Why a transfer within the shard is refused, if it is. -/
def transferRejection? (b : Books) (tid : Tid) (txn : Transaction) :
    Except Fault (Option Rejection) :=
  if (b.participants.find? tid).isSome then .ok (some .transactionConflict)
  else if !b.topology.owns txn.sender then
    .ok (some (.invalidShardRouting txn.sender b.topology.shard))
  else if !b.topology.owns txn.receiver then
    .ok (some (.invalidShardRouting txn.receiver b.topology.shard))
  else do
    match ← b.participants.fundingShortfall? b.ledger tid txn with
    | some reason => return some reason
    | none => return b.participants.creditOverflow? b.ledger tid txn

/-- Carries out a transfer within the shard. -/
def transfer (b : Books) (tid : Tid) (txn : Transaction) : Except Fault (Books × Outcome) :=
  match b.transfers.get? tid with
  | some known => .ok (b, if known = txn then .duplicate else .rejected .transactionConflict)
  | none => do
    match ← b.transferRejection? tid txn with
    | some reason => return (b, .rejected reason)
    | none =>
      match b.ledger.debit txn.sender txn.amount with
      | .error balance =>
        return (b, .rejected (.insufficientFunds txn.sender balance txn.amount))
      | .ok debited =>
        let credited := debited.deposit txn.receiver txn.amount
        return ({ b with ledger := credited, transfers := b.transfers.insert tid txn },
          .transferred)

/-- The effect of a command, without the line in the audit trail. -/
def perform (b : Books) : Command → Except Fault (Books × Outcome)
  | .transfer tid txn => b.transfer tid txn
  | .prepare tid txn => do
    let (participants, outcome) ← b.participants.prepare b.topology b.ledger tid txn
    return ({ b with participants := participants }, outcome)
  | .commit tid =>
    let (participants, ledger, outcome) := b.participants.commit b.topology b.ledger tid
    .ok ({ b with participants := participants, ledger := ledger }, outcome)
  | .abort tid =>
    let (participants, outcome) := b.participants.abort tid
    .ok ({ b with participants := participants }, outcome)

/-- Applies an entry and notes what it did. -/
def apply (b : Books) (entry : LogEntry) : Except Fault (Books × Outcome) := do
  let (b, outcome) ← b.perform entry.command
  return ({ b with applied := b.applied ++ [⟨entry, outcome⟩] }, outcome)

def applyAll (b : Books) (entries : List LogEntry) : Except Fault Books :=
  entries.foldlM (fun b e => (·.1) <$> b.apply e) b

/-! ### Reading without the replica -/

/-- What a replica publishes of its books for reading. -/
structure Snapshot where
  replica : ReplicaId
  shard : ShardId
  applied : List AppliedEntry
  ledger : Ledger
  deriving DecidableEq

def snapshot (b : Books) : Snapshot where
  replica := b.topology.replica
  shard := b.topology.shard
  applied := b.applied
  ledger := b.ledger

namespace Snapshot

/-- The balance of an account that the published ledger holds. -/
def balanceOf (s : Snapshot) (a : AccountId) : Except LedgerError Amount :=
  match s.ledger.balance? a with
  | some balance => .ok balance
  | none => .error (.invalidShardRouting a s.shard)

/-- The answer to a request that only reads. -/
def answer? (s : Snapshot) : Request → Option Response
  | .logs => some (.logs s.applied)
  | .balance account => some (.ofBalance (s.balanceOf account))
  | _ => none

end Snapshot

end Books

end ReplicatedLedger
