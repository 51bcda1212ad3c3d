import ReplicatedLedger.Proofs.Routing

/-!
Tables of equal shards.  Replicas and accounts are numbered in stretches that follow each other.  If
there are no accounts at all the ranges are empty, and no account is found.
-/

namespace ReplicatedLedger

namespace RoutingTable

variable {t : RoutingTable} {shards replicas accounts n : Word}
  {part : AccountRange × List ReplicaId} {a : AccountId} {k : ShardId}

/-! ### One shard -/

theorem shard_of_uniformShard (h : uniformShard replicas accounts n = .ok part) :
    part.1.shard = ⟨n⟩ := by
  simp only [uniformShard, bind_eq_ok_iff, pure_eq_ok_iff] at h
  obtain ⟨_, _, _, _, _, _, _, _, _, _, rfl⟩ := h
  rfl

theorem range_of_uniformShard (h : uniformShard replicas accounts n = .ok part) :
    part.1.first.number.toNat = n.toNat * accounts.toNat + 1 ∧
      part.1.last.number.toNat = n.toNat * accounts.toNat + accounts.toNat := by
  simp only [uniformShard, bind_eq_ok_iff, pure_eq_ok_iff] at h
  obtain ⟨start, hstart, first, hfirst, next, hnext, last, hlast, _, _, rfl⟩ := h
  rw [Word.sum_eq_ok_iff] at hfirst hnext
  rw [hfirst, Word.toNat_of_product hstart, Word.toNat_of_product hlast, hnext]
  exact ⟨rfl, Nat.succ_mul _ _⟩

theorem group_of_uniformShard (h : uniformShard replicas accounts n = .ok part) :
    part.2.Nodup ∧ ∀ r ∈ part.2, n.toNat * replicas.toNat < r.number.toNat ∧
      r.number.toNat ≤ n.toNat * replicas.toNat + replicas.toNat := by
  simp only [uniformShard, bind_eq_ok_iff, pure_eq_ok_iff] at h
  obtain ⟨_, _, _, _, _, _, _, _, members, hmembers, rfl⟩ := h
  obtain ⟨hlength, hmember⟩ := List.forall₂_iff_get.1 (mapM_eq_ok_iff.1 hmembers)
  rw [List.length_range] at hlength
  have hnumber : ∀ i (hi : i < members.length),
      members[i].number.toNat = n.toNat * replicas.toNat + (i + 1) := by
    intro i hi
    have hgiven := hmember i (by simpa [hlength] using hi) hi
    obtain ⟨base, hbase, hgiven⟩ := bind_eq_ok_iff.1 hgiven
    obtain ⟨number, hsum, heq⟩ := map_eq_ok_iff.1 hgiven
    have hsize := replicas.toNat_lt_size
    rw [List.get_eq_getElem] at heq
    rw [Word.sum_eq_ok_iff, Word.toNat_of_product hbase, List.get_eq_getElem, List.getElem_range,
      UInt64.toNat_ofNat_of_lt' (by dsimp only; omega)] at hsum
    rw [← heq]
    exact hsum
  refine ⟨List.nodup_iff_injective_getElem.2 fun i j heq => ?_, fun r hr => ?_⟩
  · have hi := hnumber i i.2
    have hj := hnumber j j.2
    dsimp only at heq
    rw [heq] at hi
    exact Fin.ext (by omega)
  · obtain ⟨i, hi, rfl⟩ := List.mem_iff_getElem.1 hr
    have hn := hnumber i hi
    have hi : i < members.length := hi
    dsimp only
    omega

theorem length_of_uniformShard (h : uniformShard replicas accounts n = .ok part) :
    part.2.length = replicas.toNat := by
  simp only [uniformShard, bind_eq_ok_iff, pure_eq_ok_iff] at h
  obtain ⟨_, _, _, _, _, _, _, _, members, hmembers, rfl⟩ := h
  rw [← (mapM_eq_ok_iff.1 hmembers).length_eq, List.length_range]

/-- The number of the `i`-th replica can be computed. -/
theorem exists_replica_iff {i : Nat} (hi : i < replicas.toNat) :
    (∃ r, (do
      let base ← Word.product n replicas
      ReplicaId.mk <$> Word.sum base (UInt64.ofNat (i + 1))) = .ok r) ↔
        n.toNat * replicas.toNat + (i + 1) < UInt64.size := by
  have hsize := replicas.toNat_lt_size
  have hnumber : (UInt64.ofNat (i + 1)).toNat = i + 1 := UInt64.toNat_ofNat_of_lt' (by omega)
  constructor
  · rintro ⟨r, h⟩
    obtain ⟨base, hbase, h⟩ := bind_eq_ok_iff.1 h
    obtain ⟨number, hsum, _⟩ := map_eq_ok_iff.1 h
    have hlt := Word.exists_sum_iff.1 ⟨number, hsum⟩
    rwa [Word.toNat_of_product hbase, hnumber] at hlt
  · intro hlt
    obtain ⟨base, hbase⟩ := Word.exists_product_iff.2 (by omega : n.toNat * replicas.toNat < _)
    obtain ⟨number, hsum⟩ : ∃ number, Word.sum base (UInt64.ofNat (i + 1)) = .ok number := by
      rw [Word.exists_sum_iff, Word.toNat_of_product hbase, hnumber]
      exact hlt
    exact ⟨_, bind_eq_ok_iff.2 ⟨base, hbase, map_eq_ok_iff.2 ⟨number, hsum, rfl⟩⟩⟩

/-- A shard can be laid out if and only if its last account and its last replica have numbers. -/
theorem exists_uniformShard_iff (hreplicas : replicas ≠ 0) (haccounts : accounts ≠ 0) :
    (∃ part, uniformShard replicas accounts n = .ok part) ↔
      (n.toNat + 1) * accounts.toNat < UInt64.size ∧
        (n.toNat + 1) * replicas.toNat < UInt64.size := by
  have hsome : 0 < replicas.toNat := UInt64.pos_iff_ne_zero.2 hreplicas
  have hsome' : 0 < accounts.toNat := UInt64.pos_iff_ne_zero.2 haccounts
  rw [Nat.succ_mul, Nat.succ_mul]
  constructor
  · rintro ⟨part, h⟩
    have hlast := part.1.last.number.toNat_lt_size
    rw [(range_of_uniformShard h).2] at hlast
    simp only [uniformShard, bind_eq_ok_iff, pure_eq_ok_iff] at h
    obtain ⟨_, _, _, _, _, _, _, _, members, hmembers, _⟩ := h
    have hhighest := exists_mapM_iff.1 ⟨members, hmembers⟩ (replicas.toNat - 1)
      (List.mem_range.2 (by omega))
    rw [exists_replica_iff (by omega), Nat.sub_add_cancel hsome] at hhighest
    exact ⟨hlast, hhighest⟩
  · rintro ⟨hlast, hhighest⟩
    have hbelow : n.toNat ≤ n.toNat * accounts.toNat := Nat.le_mul_of_pos_right _ hsome'
    obtain ⟨start, hstart⟩ := Word.exists_product_iff.2 (by omega : n.toNat * accounts.toNat < _)
    obtain ⟨first, hfirst⟩ : ∃ first, Word.sum start 1 = .ok first := by
      rw [Word.exists_sum_iff, Word.toNat_of_product hstart]
      exact Nat.lt_of_le_of_lt (Nat.add_le_add_left hsome' _) hlast
    obtain ⟨next, hnext⟩ : ∃ next, Word.sum n 1 = .ok next := by
      rw [Word.exists_sum_iff]
      exact Nat.lt_of_le_of_lt (Nat.add_le_add hbelow hsome') hlast
    have hnumber : next.toNat = n.toNat + 1 := Word.sum_eq_ok_iff.1 hnext
    obtain ⟨last, hlast⟩ : ∃ last, Word.product next accounts = .ok last := by
      rw [Word.exists_product_iff, hnumber, Nat.succ_mul]
      exact hlast
    obtain ⟨members, hmembers⟩ := exists_mapM_iff.2 fun i hi =>
      (exists_replica_iff (List.mem_range.1 hi)).2
        (by have hi := List.mem_range.1 hi; omega : n.toNat * replicas.toNat + (i + 1) < _)
    exact ⟨_, bind_eq_ok_iff.2 ⟨start, hstart, bind_eq_ok_iff.2 ⟨first, hfirst,
      bind_eq_ok_iff.2 ⟨next, hnext, bind_eq_ok_iff.2 ⟨last, hlast,
        bind_eq_ok_iff.2 ⟨members, hmembers, rfl⟩⟩⟩⟩⟩⟩

/-! ### All shards -/

/-- A table of equal shards in its parts, each numbered by its position. -/
theorem uniform_eq_ok (h : uniform shards replicas accounts = .ok t) :
    ∃ parts : List (AccountRange × List ReplicaId),
    t.ranges = parts.map (·.1) ∧
    t.groups = .ofList (parts.map fun p => (p.1.shard, p.2)).reverse ∧
    ∀ i (hi : i < parts.length), ∃ n : Word, n.toNat = i ∧
      uniformShard replicas accounts n = .ok parts[i] := by
  obtain ⟨parts, hparts, h⟩ := bind_eq_ok_iff.1 h
  cases h
  obtain ⟨hlength, hpart⟩ := List.forall₂_iff_get.1 (mapM_eq_ok_iff.1 hparts)
  rw [List.length_range] at hlength
  refine ⟨parts, rfl, ?_, fun i hi => ⟨UInt64.ofNat i, ?_, ?_⟩⟩
  · unfold SortedMap.ofList
    rw [List.foldl_reverse, List.foldr_map]
  · have hsize := shards.toNat_lt_size
    rw [UInt64.toNat_ofNat_of_lt' (by omega)]
  · have hgiven := hpart i (by simpa [hlength] using hi) hi
    rw [List.get_eq_getElem, List.get_eq_getElem, List.getElem_range] at hgiven
    exact hgiven

/-- Equal shards can be laid out if and only if the last account and the last replica of the last
shard have numbers. -/
theorem exists_uniform_iff (hshards : shards ≠ 0) (hreplicas : replicas ≠ 0)
    (haccounts : accounts ≠ 0) :
    (∃ t, uniform shards replicas accounts = .ok t) ↔
      shards.toNat * accounts.toNat < UInt64.size ∧
        shards.toNat * replicas.toNat < UInt64.size := by
  have hsome : 0 < shards.toNat := UInt64.pos_iff_ne_zero.2 hshards
  have hsize := shards.toNat_lt_size
  have hnumber : ∀ k < shards.toNat, (UInt64.ofNat k).toNat = k :=
    fun k hk => UInt64.toNat_ofNat_of_lt' (by omega)
  have hparts : (∃ t, uniform shards replicas accounts = .ok t) ↔
      ∃ parts, (List.range shards.toNat).mapM (fun k =>
        uniformShard replicas accounts (UInt64.ofNat k)) = .ok parts := by
    constructor
    · rintro ⟨t, h⟩
      obtain ⟨parts, hparts, _⟩ := bind_eq_ok_iff.1 h
      exact ⟨parts, hparts⟩
    · rintro ⟨parts, hparts⟩
      exact ⟨_, bind_eq_ok_iff.2 ⟨parts, hparts, rfl⟩⟩
  simp only [hparts, exists_mapM_iff, exists_uniformShard_iff hreplicas haccounts, List.mem_range]
  constructor
  · intro h
    have hlast := h (shards.toNat - 1) (by omega)
    rwa [hnumber _ (by omega), Nat.sub_add_cancel hsome] at hlast
  · rintro ⟨hlast, hhighest⟩ k hk
    rw [hnumber k hk]
    exact ⟨Nat.lt_of_le_of_lt (Nat.mul_le_mul_right _ hk) hlast,
      Nat.lt_of_le_of_lt (Nat.mul_le_mul_right _ hk) hhighest⟩

/-- If shards have replicas at all, each of them has. -/
theorem ne_nil_of_uniform (h : uniform shards replicas accounts = .ok t) (hreplicas : replicas ≠ 0)
    {members : List ReplicaId} (hmembers : t.groups.get? k = some members) : members ≠ [] := by
  obtain ⟨parts, _, hgroups, hpart⟩ := uniform_eq_ok h
  rw [hgroups] at hmembers
  obtain ⟨part, hmem, heq⟩ :=
    List.mem_map.1 (List.mem_reverse.1 (SortedMap.mem_of_get?_ofList hmembers))
  obtain ⟨i, hi, rfl⟩ := List.mem_iff_getElem.1 hmem
  obtain ⟨n, _, hn⟩ := hpart i hi
  cases heq
  rintro hempty
  have hlength := length_of_uniformShard hn
  rw [hempty] at hlength
  exact hreplicas (UInt64.toNat_inj.1 hlength.symm)

theorem nodup_replicas_of_uniform (h : uniform shards replicas accounts = .ok t) :
    t.replicas.Nodup := by
  obtain ⟨parts, _, hgroups, hpart⟩ := uniform_eq_ok h
  have hgroup : ∀ p ∈ t.groups.toList, p.2.Nodup ∧ ∀ r ∈ p.2,
      p.1.number.toNat * replicas.toNat < r.number.toNat ∧
        r.number.toNat ≤ p.1.number.toNat * replicas.toNat + replicas.toNat := by
    rintro ⟨k, members⟩ hmem
    have hget := SortedMap.get?_eq_some_iff.2 hmem
    rw [hgroups] at hget
    obtain ⟨part, hmem, heq⟩ :=
      List.mem_map.1 (List.mem_reverse.1 (SortedMap.mem_of_get?_ofList hget))
    obtain ⟨i, hi, rfl⟩ := List.mem_iff_getElem.1 hmem
    obtain ⟨n, _, hn⟩ := hpart i hi
    cases heq
    rw [shard_of_uniformShard hn]
    exact group_of_uniformShard hn
  unfold RoutingTable.replicas SortedMap.values
  refine List.nodup_flatten.2 ⟨fun members hmem => ?_, List.pairwise_map.2 ?_⟩
  · obtain ⟨p, hp, rfl⟩ := List.mem_map.1 hmem
    exact (hgroup p hp).1
  · refine t.groups.ascending.imp_of_mem fun {p q} hp hq hlt r hr hr' => ?_
    have hp := (hgroup p hp).2 r hr
    have hq := (hgroup q hq).2 r hr'
    have hlt : compare p.1.number q.1.number = .lt := hlt
    have hbelow : p.1.number.toNat < q.1.number.toNat :=
      UInt64.lt_iff_toNat_lt.1 (Std.compare_eq_lt.1 hlt)
    have hstretch := Nat.mul_le_mul_right replicas.toNat hbelow
    rw [Nat.succ_mul] at hstretch
    omega

/-- With accounts to share out, a table of equal shards is what a table made of ranges is. -/
theorem sound_of_uniform (h : uniform shards replicas accounts = .ok t) (some : accounts ≠ 0) :
    t.Sound := by
  obtain ⟨parts, hranges, hgroups, hpart⟩ := uniform_eq_ok h
  have hpositive : 0 < accounts.toNat := UInt64.pos_iff_ne_zero.2 some
  have hrange : ∀ i (hi : i < parts.length),
      parts[i].1.first.number.toNat = i * accounts.toNat + 1 ∧
        parts[i].1.last.number.toNat = i * accounts.toNat + accounts.toNat := by
    intro i hi
    obtain ⟨n, rfl, hn⟩ := hpart i hi
    exact range_of_uniformShard hn
  constructor
  case occupied =>
    intro r hr
    rw [hranges] at hr
    obtain ⟨p, hp, rfl⟩ := List.mem_map.1 hr
    obtain ⟨i, hi, rfl⟩ := List.mem_iff_getElem.1 hp
    have hr := hrange i hi
    rw [AccountId.le_iff_toNat_le]
    omega
  case served =>
    intro r hr
    rw [hranges] at hr
    obtain ⟨p, hp, rfl⟩ := List.mem_map.1 hr
    unfold RoutingTable.shards
    rw [SortedMap.mem_keys_iff, hgroups]
    refine SortedMap.exists_get?_ofList ?_
    simp only [List.map_reverse, List.map_map, List.mem_reverse, List.mem_map]
    exact ⟨p, hp, rfl⟩
  case apart =>
    rw [hranges, List.pairwise_map, List.pairwise_iff_getElem]
    intro i j hi hj hlt
    have hlast := (hrange i hi).2
    have hfirst := (hrange j hj).1
    have hstretch := Nat.mul_le_mul_right accounts.toNat hlt
    rw [Nat.succ_mul] at hstretch
    rw [AccountId.lt_iff_toNat_lt]
    omega
  case distinct => exact nodup_replicas_of_uniform h

/-- A table of equal shards shares out its accounts, be there any or none. -/
theorem partitioned_of_uniform (h : uniform shards replicas accounts = .ok t) : t.Partitioned := by
  by_cases some : accounts = 0
  · obtain ⟨parts, hranges, _, hpart⟩ := uniform_eq_ok h
    have hempty : ∀ a k, ¬ ∃ r ∈ t.ranges, r.shard = k ∧ r.contains a = true := by
      rintro a k ⟨r, hr, _, hcontains⟩
      rw [hranges] at hr
      obtain ⟨p, hp, rfl⟩ := List.mem_map.1 hr
      obtain ⟨i, hi, rfl⟩ := List.mem_iff_getElem.1 hp
      obtain ⟨n, _, hn⟩ := hpart i hi
      obtain ⟨hfirst, hlast⟩ := range_of_uniformShard hn
      obtain ⟨hle, hge⟩ := AccountRange.contains_iff.1 hcontains
      rw [AccountId.le_iff_toNat_le, hfirst, some] at hle
      rw [AccountId.le_iff_toNat_le, hlast, some] at hge
      simp only [UInt64.toNat_zero] at hle hge
      omega
    constructor
    case mem_accounts_iff =>
      refine fun a k => iff_of_false ?_ ?_
      · exact fun ha => hempty a k (mem_accounts_iff_exists_range.1 ha)
      · exact fun hk => hempty a k (exists_range_of_shardOf? hk)
    case mem_shards => exact fun a k hk => absurd (exists_range_of_shardOf? hk) (hempty a k)
    case distinct => exact nodup_replicas_of_uniform h
  · exact (sound_of_uniform h some).partitioned

end RoutingTable

end ReplicatedLedger
