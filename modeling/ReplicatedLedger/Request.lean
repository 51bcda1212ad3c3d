import ReplicatedLedger.Entry

/-!
What clients ask of a replica, and what it answers.
-/

namespace ReplicatedLedger

inductive Request where
  /-- A transfer within the replica's shard. -/
  | transfer (tid : Tid) (txn : Transaction)
  /-- Asks for the shard's vote on a transfer across shards. -/
  | prepare (tid : Tid) (txn : Transaction)
  | commit (tid : Tid)
  | abort (tid : Tid)
  /-- Stops all exchange with the given replicas. -/
  | disconnect (peers : List ReplicaId)
  /-- Resumes the exchange, with all replicas when none is given. -/
  | reconnect (peers : List ReplicaId)
  | logs
  | balance (account : AccountId)
  deriving DecidableEq, Repr, Inhabited

namespace Request

def name : Request → String
  | transfer .. => "Transfer"
  | prepare .. => "TpcPrepare"
  | commit .. => "TpcCommit"
  | abort .. => "TpcAbort"
  | disconnect .. => "Disconnect"
  | reconnect .. => "Reconnect"
  | logs => "Logs"
  | balance .. => "Balance"

def isReadOnly : Request → Bool
  | logs | balance _ => true
  | _ => false

end Request

/-- A shard's answer to a prepare request. -/
inductive Vote where
  | yes
  | no (reason : LedgerError)
  deriving DecidableEq, Repr, Inhabited

namespace Vote

def isYes : Vote → Bool
  | yes => true
  | no _ => false

def reason? : Vote → Option LedgerError
  | yes => none
  | no reason => some reason

end Vote

inductive Response where
  /-- The request holds; `slot` is the entry that made it hold, unless it held before. -/
  | ack (slot : Option Slot)
  | vote (vote : Vote)
  | logs (entries : List AppliedEntry)
  | balance (amount : Amount)
  | error (reason : LedgerError)
  deriving DecidableEq, Repr, Inhabited

namespace Response

def name : Response → String
  | ack _ => "Ack"
  | vote _ => "Vote"
  | logs _ => "Logs"
  | balance _ => "Balance"
  | error _ => "Error"

/-- The error of a refusal or of a vote against. -/
def error? : Response → Option LedgerError
  | error reason | vote (.no reason) => some reason
  | _ => none

def isOk (r : Response) : Bool := r.error?.isNone

def ofBalance : Except LedgerError Amount → Response
  | .ok amount => balance amount
  | .error reason => error reason

end Response

end ReplicatedLedger
