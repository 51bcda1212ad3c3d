import ReplicatedLedger.FieldText

/-!
Why a replica refuses a request.
-/

namespace ReplicatedLedger

inductive LedgerError where
  /-- The sender cannot pay once outstanding reservations are taken off its balance. -/
  | insufficientFunds (account : AccountId) (available requested : Amount)
  /-- A commit names a transaction that the replica has no record of. -/
  | unknownTransaction (tid : Tid)
  /-- The attempts allowed to a proposal ran out without a majority. -/
  | quorumUnavailable (attempts : UInt32)
  /-- The last attempt allowed to a proposal lost to a higher ballot. -/
  | staleBallot (promised : Ballot)
  /-- The shard does not own the account. -/
  | invalidShardRouting (account : AccountId) (shard : ShardId)
  /-- The transaction has ended the other way. -/
  | alreadyDecided (tid : Tid)
  /-- The id is in use for another transaction. -/
  | transactionConflict (tid : Tid)
  /-- With the credits still to come, the receiver's balance would exceed the largest amount. -/
  | balanceOverflow (account : AccountId)
  deriving DecidableEq, Repr, Inhabited

namespace LedgerError

def message : LedgerError → String
  | insufficientFunds account available requested =>
    "insufficient funds in account " ++ account.text ++ ": available " ++ toString available ++
      ", requested " ++ toString requested
  | unknownTransaction tid => "unknown transaction " ++ tid.text
  | quorumUnavailable attempts => "quorum unavailable after " ++ toString attempts ++ " attempts"
  | staleBallot promised => "stale ballot: acceptors promised " ++ promised.text
  | invalidShardRouting account shard =>
    "account " ++ account.text ++ " is not owned by " ++ shard.text
  | alreadyDecided tid => "transaction " ++ tid.text ++ " was already decided the other way"
  | transactionConflict tid =>
    "transaction " ++ tid.text ++ " conflicts with an earlier transaction using the same tid"
  | balanceOverflow account =>
    "crediting account " ++ account.text ++ " would overflow its balance"

/-- Whether the same request may succeed later: only consensus failures pass. -/
def isRetryable : LedgerError → Bool
  | quorumUnavailable _ | staleBallot _ => true
  | _ => false

open FieldText in
def fieldText : LedgerError → String
  | insufficientFunds account available requested =>
    named "InsufficientFunds" [("account", account.fieldText), ("available", toString available),
      ("requested", toString requested)]
  | unknownTransaction tid => wrapped "UnknownTransaction" tid.fieldText
  | quorumUnavailable attempts => named "QuorumUnavailable" [("attempts", toString attempts)]
  | staleBallot promised => named "StaleBallot" [("promised", promised.fieldText)]
  | invalidShardRouting account shard =>
    named "InvalidShardRouting" [("account", account.fieldText), ("shard", shard.fieldText)]
  | alreadyDecided tid => wrapped "AlreadyDecided" tid.fieldText
  | transactionConflict tid => wrapped "TransactionConflict" tid.fieldText
  | balanceOverflow account => named "BalanceOverflow" [("account", account.fieldText)]

end LedgerError

end ReplicatedLedger
