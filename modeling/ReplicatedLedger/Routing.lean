import ReplicatedLedger.Identifier

/-!
Which shard owns an account, and which replicas serve a shard.  Accounts are assigned in ranges that
do not overlap, replicas in groups that have no member in common.
-/

namespace ReplicatedLedger

/-- The accounts from `first` to `last`, both included, owned by one shard. -/
structure AccountRange where
  shard : ShardId
  first : AccountId
  last : AccountId
  deriving DecidableEq, Repr, Inhabited

namespace AccountRange

def contains (r : AccountRange) (a : AccountId) : Bool := r.first ≤ a ∧ a ≤ r.last

def size (r : AccountRange) : Nat := r.last.number.toNat + 1 - r.first.number.toNat

/-- The first `limit` accounts of the range. -/
def firstAccounts (r : AccountRange) (limit : Nat) : List AccountId :=
  (List.range (min limit r.size)).map fun i => ⟨UInt64.ofNat (r.first.number.toNat + i)⟩

def accounts (r : AccountRange) : List AccountId := r.firstAccounts r.size

/-- Whether the range ends before the other begins. -/
def endsBefore (r s : AccountRange) : Bool := r.last < s.first

end AccountRange

inductive RoutingError where
  | overlappingRanges (left right : ShardId)
  | emptyRange (shard : ShardId)
  | missingGroup (shard : ShardId)
  | duplicateReplica (replica : ReplicaId)
  | unknownReplica (replica : ReplicaId)
  deriving DecidableEq, Repr

def RoutingError.message : RoutingError → String
  | overlappingRanges left right =>
    "account ranges of " ++ left.text ++ " and " ++ right.text ++ " overlap"
  | emptyRange shard => "account range of " ++ shard.text ++ " is empty"
  | missingGroup shard => shard.text ++ " has no replica group"
  | duplicateReplica replica => "replica " ++ replica.text ++ " belongs to more than one shard"
  | unknownReplica replica => "replica " ++ replica.text ++ " is not in the routing table"

/-- Ranges in ascending order of their first accounts, and the replicas of each shard. -/
structure RoutingTable where
  ranges : List AccountRange
  groups : SortedMap ShardId (List ReplicaId)
  deriving DecidableEq, Inhabited

namespace RoutingTable

/-- Places a range before the first one that does not start below it. -/
def placeRange (r : AccountRange) : List AccountRange → List AccountRange
  | [] => [r]
  | s :: rest => if s.first < r.first then s :: placeRange r rest else r :: s :: rest

/-- Ranges by first account; those that start together keep their order. -/
def sortRanges (ranges : List AccountRange) : List AccountRange :=
  ranges.foldr placeRange []

/-- The first range that is empty or whose shard has no replicas, and what is wrong with it. -/
def rangeError? (groups : SortedMap ShardId (List ReplicaId)) :
    List AccountRange → Option RoutingError
  | [] => none
  | r :: rest =>
    if r.last < r.first then some (.emptyRange r.shard)
    else if ((groups.get? r.shard).getD []).isEmpty then some (.missingGroup r.shard)
    else rangeError? groups rest

/-- The first two neighbours that share an account. -/
def overlap? : List AccountRange → Option RoutingError
  | r :: s :: rest =>
    if r.endsBefore s then overlap? (s :: rest) else some (.overlappingRanges r.shard s.shard)
  | _ => none

/-- The first replica that occurs again, in the order of the list. -/
def repeated? (seen : List ReplicaId) : List ReplicaId → Option RoutingError
  | [] => none
  | r :: rest => if r ∈ seen then some (.duplicateReplica r) else repeated? (r :: seen) rest

/-- All replicas, shard by shard. -/
def replicas (t : RoutingTable) : List ReplicaId := t.groups.values.flatten

/-- A table from ranges in any order.  Of several faults, a bad range is reported before an overlap,
and an overlap before a repeated replica. -/
def ofRanges (ranges : List AccountRange) (groups : SortedMap ShardId (List ReplicaId)) :
    Except RoutingError RoutingTable :=
  let table : RoutingTable := ⟨sortRanges ranges, groups⟩
  match (rangeError? groups table.ranges).or
      ((overlap? table.ranges).or (repeated? [] table.replicas)) with
  | some e => .error e
  | none => .ok table

/-- The range and the group of shard `k`, when every shard has the same numbers of accounts and
replicas. -/
def uniformShard (replicasPerShard accountsPerShard k : Word) :
    Except Fault (AccountRange × List ReplicaId) := do
  let start ← Word.product k accountsPerShard
  let first ← Word.sum start 1
  let next ← Word.sum k 1
  let last ← Word.product next accountsPerShard
  let group ← (List.range replicasPerShard.toNat).mapM fun i => do
    let base ← Word.product k replicasPerShard
    ReplicaId.mk <$> Word.sum base (UInt64.ofNat (i + 1))
  return (⟨⟨k⟩, ⟨first⟩, ⟨last⟩⟩, group)

/-- A table of equal shards, numbered from 0, with accounts and replicas numbered from 1. -/
def uniform (shards replicasPerShard accountsPerShard : Word) : Except Fault RoutingTable := do
  let parts ← (List.range shards.toNat).mapM fun k =>
    uniformShard replicasPerShard accountsPerShard (UInt64.ofNat k)
  return ⟨parts.map (·.1), parts.foldr (fun p m => m.insert p.1.shard p.2) ∅⟩

/-- The shard that owns an account: the last range that starts at or below it decides. -/
def shardOf? (t : RoutingTable) (a : AccountId) : Option ShardId :=
  match (t.ranges.takeWhile fun r => r.first ≤ a).getLast? with
  | some r => if r.contains a then some r.shard else none
  | none => none

def group (t : RoutingTable) (s : ShardId) : List ReplicaId := (t.groups.get? s).getD []

def shardOfReplica? (t : RoutingTable) (r : ReplicaId) : Option ShardId :=
  (t.groups.toList.find? fun p => r ∈ p.2).map (·.1)

def shards (t : RoutingTable) : List ShardId := t.groups.keys

def rangesOf (t : RoutingTable) (s : ShardId) : List AccountRange :=
  t.ranges.filter (·.shard = s)

/-- The accounts of a shard, range by range. -/
def accounts (t : RoutingTable) (s : ShardId) : List AccountId :=
  (t.rangesOf s).flatMap AccountRange.accounts

/-- The first `limit` accounts of a list of ranges. -/
def firstAccountsOf (limit : Nat) : List AccountRange → List AccountId
  | [] => []
  | r :: rest => r.firstAccounts limit ++ firstAccountsOf (limit - r.size) rest

/-- The first `limit` accounts of a shard, without listing the others. -/
def firstAccounts (t : RoutingTable) (s : ShardId) (limit : Nat) : List AccountId :=
  firstAccountsOf limit (t.rangesOf s)

theorem take_accounts (r : AccountRange) (limit : Nat) :
    r.accounts.take limit = r.firstAccounts limit := by
  simp [AccountRange.accounts, AccountRange.firstAccounts, ← List.map_take, List.take_range]

theorem length_firstAccounts (r : AccountRange) (limit : Nat) :
    (r.firstAccounts limit).length = min limit r.size := by
  simp [AccountRange.firstAccounts]

theorem firstAccounts_eq_take (t : RoutingTable) (s : ShardId) (limit : Nat) :
    t.firstAccounts s limit = (t.accounts s).take limit := by
  unfold firstAccounts accounts
  generalize t.rangesOf s = ranges
  induction ranges generalizing limit with
  | nil => simp [firstAccountsOf]
  | cons r rest ih =>
    have hlen : r.accounts.length = r.size := by
      simp [AccountRange.accounts, length_firstAccounts]
    rw [firstAccountsOf, List.flatMap_cons, List.take_append, take_accounts, hlen, ih]

end RoutingTable

end ReplicatedLedger
