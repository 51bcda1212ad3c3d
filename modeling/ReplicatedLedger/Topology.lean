import ReplicatedLedger.Routing

/-!
A replica's place in the cluster: its shard, its group, and how many members a majority takes.
-/

namespace ReplicatedLedger

structure Topology where
  replica : ReplicaId
  shard : ShardId
  routing : RoutingTable
  deriving DecidableEq, Inhabited

namespace Topology

/-- The place of `replica` in a routing table that knows it. -/
def of (routing : RoutingTable) (replica : ReplicaId) : Except RoutingError Topology :=
  match routing.shardOfReplica? replica with
  | some shard => .ok ⟨replica, shard, routing⟩
  | none => .error (.unknownReplica replica)

def owns (t : Topology) (a : AccountId) : Bool := t.routing.shardOf? a = some t.shard

def group (t : Topology) : List ReplicaId := t.routing.group t.shard

/-- The size of a majority of the group; any two majorities have a member in common. -/
def quorum (t : Topology) : Nat := t.group.length / 2 + 1

def isMember (t : Topology) (r : ReplicaId) : Bool := r ∈ t.group

def position? (t : Topology) (r : ReplicaId) : Option Nat := t.group.findIdx? (· = r)

def peers (t : Topology) : List ReplicaId := t.group.filter (· ≠ t.replica)

end Topology

end ReplicatedLedger
