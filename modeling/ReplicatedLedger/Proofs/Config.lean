import ReplicatedLedger.Config.Basic
import ReplicatedLedger.Proofs.Routing.Partition
import ReplicatedLedger.Proofs.Routing.Uniform

/-!
Which layouts can be built, given enough memory.  A valid configuration has shards, replicas and
accounts, but they need not all have numbers; if they have, the routing table is sound and every
replica has its place.
-/

namespace ReplicatedLedger

namespace ClusterConfig

variable {c : ClusterConfig}

theorem validate_eq_ok_iff : c.validate = .ok () ↔ c.shards ≠ 0 ∧ c.replicasPerShard ≠ 0 ∧
    c.accountsPerShard ≠ 0 ∧ c.network.inboxCapacity ≠ 0 := by
  unfold validate
  repeat' split
  all_goals simp_all

/-- A replica of a table in which none occurs twice has its place there, in its own group. -/
theorem exists_place {t : RoutingTable} {r : ReplicaId} (distinct : t.replicas.Nodup)
    (hr : r ∈ t.replicas) : ∃ place, Topology.of t r = .ok place ∧ r ∈ place.group := by
  obtain ⟨k, hk⟩ := RoutingTable.mem_replicas_iff.1 hr
  unfold Topology.of
  rw [(RoutingTable.shardOfReplica?_eq_some_iff distinct).2 hk]
  exact ⟨_, rfl, hk⟩

/-- The layout of a valid configuration can be computed if and only if the last account and the last
replica have numbers that fit in a word.  The table then passes all checks for tables, and each of
its replicas has its place there.  Only the numbers count here.  Memory has no limit, so the table
of `2 ^ 60` shards is computed although no machine can allocate its ranges. -/
theorem layout_built_iff (valid : c.validate = .ok ()) :
    ((∃ t, c.routing = .ok t) ↔
      c.shards.toNat * c.accountsPerShard.toNat < UInt64.size ∧
        c.shards.toNat * c.replicasPerShard.toNat < UInt64.size) ∧
    ∀ t, c.routing = .ok t → RoutingTable.ofRanges t.ranges t.groups = .ok t ∧
      ∀ r ∈ t.replicas, ∃ place, Topology.of t r = .ok place ∧ r ∈ place.group := by
  obtain ⟨hshards, hreplicas, haccounts, _⟩ := validate_eq_ok_iff.1 valid
  refine ⟨RoutingTable.exists_uniform_iff hshards hreplicas haccounts, fun t ht => ?_⟩
  have sound := RoutingTable.sound_of_uniform ht haccounts
  exact ⟨sound.ofRanges_eq fun k members => RoutingTable.ne_nil_of_uniform ht hreplicas,
    fun r hr => exists_place sound.distinct hr⟩

/-- A layout with the largest account number that there is. -/
theorem layout_built_iff_largest : ∃ (c : ClusterConfig) (t : RoutingTable), c.validate = .ok () ∧
    c.shards.toNat * c.accountsPerShard.toNat = UInt64.size - 1 ∧ c.routing = .ok t ∧
      t.shardOf? ⟨18446744073709551615⟩ = some ⟨2⟩ ∧
      RoutingTable.ofRanges t.ranges t.groups = .ok t ∧
      ∃ place, Topology.of t ⟨4⟩ = .ok place ∧ ⟨4⟩ ∈ place.group := by
  let c : ClusterConfig :=
    { shards := 3, replicasPerShard := 2, accountsPerShard := 6148914691236517205 }
  have valid : c.validate = .ok () := by decide
  obtain ⟨hbuilt, hsound⟩ := layout_built_iff valid
  obtain ⟨t, ht⟩ := hbuilt.2 (by decide)
  obtain ⟨hchecked, hplace⟩ := hsound t ht
  have hgiven : ∃ t, c.routing = .ok t ∧ t.shardOf? ⟨18446744073709551615⟩ = some ⟨2⟩ ∧
      ⟨4⟩ ∈ t.replicas := ⟨_, rfl, by decide, by decide⟩
  obtain ⟨t', ht', howner, hfourth⟩ := hgiven
  obtain rfl : t = t' := by
    rw [ht] at ht'
    cases ht'
    rfl
  exact ⟨c, t, valid, by decide, ht, howner, hchecked, hplace ⟨4⟩ hfourth⟩

/-- A valid configuration whose accounts do not all have numbers: the layout cannot be computed. -/
theorem valid_layout_overflows : ∃ c : ClusterConfig, c.validate = .ok () ∧
    c.routing = .error .product :=
  ⟨{ shards := 3, accountsPerShard := 9223372036854775807 }, by decide, by decide⟩

end ClusterConfig

end ReplicatedLedger
