import ReplicatedLedger.Request

/-!
Votes on a transfer across shards.  It commits when every participating shard has voted for it, and
one vote against is enough to abort it.
-/

namespace ReplicatedLedger

inductive Decision where
  | commit
  | abort
  deriving DecidableEq, Repr, Inhabited

def Decision.text : Decision → String
  | commit => "commit"
  | abort => "abort"

/-- The request that tells a participant the decision. -/
def Decision.request (tid : Tid) : Decision → Request
  | commit => .commit tid
  | abort => .abort tid

structure VoteTally where
  tid : Tid
  participants : List ShardId
  votes : SortedMap ShardId Vote
  deriving DecidableEq, Inhabited

namespace VoteTally

def start (tid : Tid) (participants : List ShardId) : VoteTally := ⟨tid, participants, ∅⟩

def record (t : VoteTally) (shard : ShardId) (vote : Vote) : VoteTally :=
  { t with votes := t.votes.insert shard vote }

/-- The vote that an answer to a prepare request amounts to.  A missing answer, or one that is no
vote, counts as a shard that could not be reached. -/
def voteOf : Option Response → Vote
  | some (.vote vote) => vote
  | some (.error reason) => .no reason
  | _ => .no (.quorumUnavailable 0)

def recordResponse (t : VoteTally) (shard : ShardId) (response : Option Response) : VoteTally :=
  t.record shard (voteOf response)

def isComplete (t : VoteTally) : Bool := t.participants.all t.votes.contains

def decision? (t : VoteTally) : Option Decision :=
  if t.votes.values.any (!·.isYes) then some .abort
  else if t.isComplete then some .commit
  else none

/-- The shards that voted against, with their reasons. -/
def rejections (t : VoteTally) : List (ShardId × LedgerError) :=
  t.votes.toList.filterMap fun p => p.2.reason?.map (p.1, ·)

end VoteTally

end ReplicatedLedger
