import ReplicatedLedger.Routing
import ReplicatedLedger.VoteTally

/-!
Transfers across shards as their caller sees them: each shard concerned votes, and all replicas of
these shards are told the decision.
-/

namespace ReplicatedLedger

def RoutingTable.participants (t : RoutingTable) (txn : Transaction) : List ShardId :=
  (SortedMap.setOf ([txn.sender, txn.receiver].filterMap t.shardOf?)).keys

def RoutingTable.members (t : RoutingTable) (shards : List ShardId) : List ReplicaId :=
  shards.flatMap t.group

/-- The decision on votes of which no more are awaited: a shard that is silent does not consent. -/
def VoteTally.verdict (t : VoteTally) : Decision := t.decision?.getD .abort

/-- What became of a transfer across shards; `α` is what a replica told of the decision answers. -/
structure TransferReport (α : Type) where
  decision : Decision
  votes : VoteTally
  acks : SortedMap ReplicaId α

end ReplicatedLedger
