import ReplicatedLedger.LedgerError
import ReplicatedLedger.Transaction

/-!
Entries of a replicated log, and what applying them to the ledger did.
-/

namespace ReplicatedLedger

/-- A command chosen for a slot, with the ballot under which a majority accepted it. -/
structure LogEntry where
  slot : Slot
  ballot : Ballot
  command : Command
  deriving DecidableEq, Repr, Inhabited

def LogEntry.text (e : LogEntry) : String :=
  "[" ++ toString e.slot.index ++ "] " ++ e.command.text ++ " @ " ++ e.ballot.text

/-- Why an entry is logged and leaves the ledger alone. -/
inductive Rejection where
  | insufficientFunds (account : AccountId) (available requested : Amount)
  | unknownTransaction
  | alreadyDecided
  | transactionConflict
  | invalidShardRouting (account : AccountId) (shard : ShardId)
  | balanceOverflow (account : AccountId)
  deriving DecidableEq, Repr, Inhabited

namespace Rejection

/-- The error that a client asking for `tid` is given. -/
def toError (tid : Tid) : Rejection → LedgerError
  | insufficientFunds account available requested =>
    .insufficientFunds account available requested
  | unknownTransaction => .unknownTransaction tid
  | alreadyDecided => .alreadyDecided tid
  | transactionConflict => .transactionConflict tid
  | invalidShardRouting account shard => .invalidShardRouting account shard
  | balanceOverflow account => .balanceOverflow account

open FieldText in
def fieldText : Rejection → String
  | insufficientFunds account available requested =>
    named "InsufficientFunds" [("account", account.fieldText), ("available", toString available),
      ("requested", toString requested)]
  | unknownTransaction => "UnknownTransaction"
  | alreadyDecided => "AlreadyDecided"
  | transactionConflict => "TransactionConflict"
  | invalidShardRouting account shard =>
    named "InvalidShardRouting" [("account", account.fieldText), ("shard", shard.fieldText)]
  | balanceOverflow account => named "BalanceOverflow" [("account", account.fieldText)]

end Rejection

inductive Outcome where
  /-- A transfer within the shard was debited and credited. -/
  | transferred
  /-- A transfer across shards was recorded, and the sender's share reserved. -/
  | prepared
  /-- The local half of a transfer across shards took effect. -/
  | committed
  /-- The reservation was released. -/
  | aborted
  /-- The entry repeats one that took effect before. -/
  | duplicate
  | rejected (reason : Rejection)
  deriving DecidableEq, Repr, Inhabited

namespace Outcome

/-- Whether the entry changed more than the audit trail. -/
def isEffective : Outcome → Bool
  | duplicate | rejected _ => false
  | _ => true

/-- The result for a client asking for `tid`. -/
def result (tid : Tid) : Outcome → Except LedgerError Unit
  | rejected reason => .error (reason.toError tid)
  | _ => .ok ()

def text : Outcome → String
  | transferred => "transferred"
  | prepared => "prepared"
  | committed => "committed"
  | aborted => "aborted"
  | duplicate => "duplicate"
  | rejected reason => "rejected: " ++ reason.fieldText

end Outcome

/-- A line of the audit trail. -/
structure AppliedEntry where
  entry : LogEntry
  outcome : Outcome
  deriving DecidableEq, Repr, Inhabited

def AppliedEntry.text (a : AppliedEntry) : String := a.entry.text ++ " => " ++ a.outcome.text

end ReplicatedLedger
