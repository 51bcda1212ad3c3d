import ReplicatedLedger.Books.Ledger
import ReplicatedLedger.Entry
import ReplicatedLedger.Topology

/-!
A shard's part in transfers across shards.  A prepared transfer holds its amount against the
sender's balance, and counts as a credit to come for the receiver, until it is decided.
-/

namespace ReplicatedLedger

inductive ParticipantState where
  | prepared
  | committed
  | aborted
  deriving DecidableEq, Repr, Inhabited

namespace ParticipantState

def name : ParticipantState → String
  | prepared => "Prepared"
  | committed => "Committed"
  | aborted => "Aborted"

def text : ParticipantState → String
  | prepared => "PREPARED"
  | committed => "COMMITTED"
  | aborted => "ABORTED"

def isTerminal : ParticipantState → Bool
  | prepared => false
  | committed | aborted => true

end ParticipantState

structure ParticipantRecord where
  tid : Tid
  txn : Transaction
  state : ParticipantState
  /-- What is held against the sender: nothing on the receiver's side, nor after a decision. -/
  reserved : Amount
  deriving DecidableEq, Repr, Inhabited

/-- Records in the order of their creation, one to a transaction id. -/
structure Participants where
  records : List ParticipantRecord := []
  deriving DecidableEq, Inhabited

namespace Participants

def find? (p : Participants) (tid : Tid) : Option ParticipantRecord :=
  p.records.find? (·.tid = tid)

def state? (p : Participants) (tid : Tid) : Option ParticipantState := (p.find? tid).map (·.state)

/-- The records that wait for a decision. -/
def pending (p : Participants) : List ParticipantRecord := p.records.filter (·.state = .prepared)

/-- The pending records other than that of `excluding`. -/
def pendingBut (p : Participants) (excluding : Option Tid) : List ParticipantRecord :=
  p.pending.filter fun r => some r.tid ≠ excluding

/-- What pending records hold against an account. -/
def reservedAgainst (p : Participants) (a : AccountId) (excluding : Option Tid) :
    Except Fault Amount :=
  Word.total (((p.pendingBut excluding).filter (·.txn.sender = a)).map (·.reserved))

/-- The credits that pending records hold out to an account. -/
def incomingTo (p : Participants) (a : AccountId) (excluding : Option Tid) : Amount :=
  (((p.pendingBut excluding).filter (·.txn.receiver = a)).map (·.txn.amount)).foldl
    Word.saturatingSum 0

/-- The part of a balance that no pending record holds. -/
def available (p : Participants) (l : Ledger) (a : AccountId) (excluding : Option Tid) :
    Except Fault Amount := do
  return Word.saturatingSub (l.balance a) (← p.reservedAgainst a excluding)

/-- Why the sender cannot pay for a transfer, if it cannot. -/
def fundingShortfall? (p : Participants) (l : Ledger) (tid : Tid) (txn : Transaction) :
    Except Fault (Option Rejection) := do
  let available ← p.available l txn.sender (some tid)
  return if available < txn.amount then
    some (.insufficientFunds txn.sender available txn.amount) else none

/-- Why the receiver has no room for a transfer on top of the credits to come, if it has none.  A
transfer to oneself raises no balance. -/
def creditOverflow? (p : Participants) (l : Ledger) (tid : Tid) (txn : Transaction) :
    Option Rejection :=
  if txn.sender = txn.receiver then none
  else
    match Word.sum? (l.balance txn.receiver) (p.incomingTo txn.receiver (some tid)) with
    | none => some (.balanceOverflow txn.receiver)
    | some due =>
      match Word.sum? due txn.amount with
      | none => some (.balanceOverflow txn.receiver)
      | some _ => none

/-- Records the decision on a transaction and releases what it held. -/
def decide (p : Participants) (tid : Tid) (state : ParticipantState) : Participants :=
  ⟨p.records.map fun r => if r.tid = tid then { r with state := state, reserved := 0 } else r⟩

/-- Why a transfer is not prepared, if it is not.  The receiver's shard checks that the credit will
fit, and the sender's that the amount can be reserved. -/
def prepareRejection? (p : Participants) (t : Topology) (l : Ledger) (tid : Tid)
    (txn : Transaction) : Except Fault (Option Rejection) :=
  if !t.owns txn.sender && !t.owns txn.receiver then
    .ok (some (.invalidShardRouting txn.sender t.shard))
  else
    match if t.owns txn.receiver then p.creditOverflow? l tid txn else none with
    | some reason => .ok (some reason)
    | none => if t.owns txn.sender then p.fundingShortfall? l tid txn else .ok none

/-- Prepares a transfer, reserving the amount on the sender's side. -/
def prepare (p : Participants) (t : Topology) (l : Ledger) (tid : Tid) (txn : Transaction) :
    Except Fault (Participants × Outcome) :=
  match p.find? tid with
  | some r => .ok (p, if r.txn = txn then .duplicate else .rejected .transactionConflict)
  | none => do
    match ← p.prepareRejection? t l tid txn with
    | some reason => return (p, .rejected reason)
    | none =>
      let reserved := if t.owns txn.sender then txn.amount else 0
      return (⟨p.records ++ [⟨tid, txn, .prepared, reserved⟩]⟩, .prepared)

/-- Commits a prepared transfer: debits the sender and credits the receiver, as far as they are
accounts of this shard. -/
def commit (p : Participants) (t : Topology) (l : Ledger) (tid : Tid) :
    Participants × Ledger × Outcome :=
  match p.find? tid with
  | none => (p, l, .rejected .unknownTransaction)
  | some r =>
    match r.state with
    | .committed => (p, l, .duplicate)
    | .aborted => (p, l, .rejected .alreadyDecided)
    | .prepared =>
      match if t.owns r.txn.receiver then p.creditOverflow? l tid r.txn else none with
      | some reason => (p, l, .rejected reason)
      | none =>
        match if t.owns r.txn.sender then l.debit r.txn.sender r.txn.amount else .ok l with
        | .error balance =>
          (p, l, .rejected (.insufficientFunds r.txn.sender balance r.txn.amount))
        | .ok debited =>
          let credited :=
            if t.owns r.txn.receiver then debited.deposit r.txn.receiver r.txn.amount
            else debited
          (p.decide tid .committed, credited, .committed)

/-- Aborts a prepared transfer.  One that was never prepared here has nothing to release. -/
def abort (p : Participants) (tid : Tid) : Participants × Outcome :=
  match p.find? tid with
  | none => (p, .duplicate)
  | some r =>
    match r.state with
    | .aborted => (p, .duplicate)
    | .committed => (p, .rejected .alreadyDecided)
    | .prepared => (p.decide tid .aborted, .aborted)

end Participants

end ReplicatedLedger
