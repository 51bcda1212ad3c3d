import ReplicatedLedger.Identifier

/-!
The replicas with which a replica has no exchange.
-/

namespace ReplicatedLedger

structure Partition where
  unreachable : SortedSet ReplicaId := ∅
  deriving DecidableEq, Inhabited

namespace Partition

def reaches (p : Partition) (r : ReplicaId) : Bool := !p.unreachable.contains r

def disconnect (p : Partition) (peers : List ReplicaId) : Partition :=
  ⟨peers.foldl (fun s r => s.insert r ()) p.unreachable⟩

/-- Takes replicas off the list, or all of them when none is named. -/
def reconnect (p : Partition) (peers : List ReplicaId) : Partition :=
  if peers.isEmpty then ⟨∅⟩ else ⟨peers.foldl (fun s r => s.erase r) p.unreachable⟩

end Partition

end ReplicatedLedger
