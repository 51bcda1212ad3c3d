import Mathlib.Data.List.Nodup
import Mathlib.Data.List.Pairwise
import ReplicatedLedger.Proofs.Result
import ReplicatedLedger.Proofs.SortedMap
import ReplicatedLedger.Routing

/-!
What the checks of a routing table leave: ranges apart from each other, so that an account lies in
one of them at most, and groups without a common member.
-/

namespace ReplicatedLedger

theorem Word.toNat_of_product {a b c : Word} (h : product a b = .ok c) :
    c.toNat = a.toNat * b.toNat := by
  unfold product at h
  split at h
  · next hlt =>
    cases h
    rw [UInt64.toNat_mul]
    exact Nat.mod_eq_of_lt hlt
  · cases h

theorem Word.exists_product_iff {a b : Word} :
    (∃ c, product a b = .ok c) ↔ a.toNat * b.toNat < UInt64.size := by
  unfold product
  split
  · next hlt => exact iff_of_true ⟨_, rfl⟩ hlt
  · next hge => exact iff_of_false (by rintro ⟨_, h⟩; cases h) hge

theorem Word.exists_sum_iff {a b : Word} :
    (∃ c, sum a b = .ok c) ↔ a.toNat + b.toNat < UInt64.size := by
  unfold sum
  split
  · next c hsum =>
    have hc := c.toNat_lt_size
    rw [sum?_eq_some_iff.1 hsum] at hc
    exact iff_of_true ⟨c, rfl⟩ hc
  · next hnone =>
    exact iff_of_false (by rintro ⟨_, h⟩; cases h) (Nat.not_lt.2 (sum?_eq_none_iff.1 hnone))

namespace AccountId

variable {a b c : AccountId}

theorem le_iff_toNat_le : a ≤ b ↔ a.number.toNat ≤ b.number.toNat := UInt64.le_iff_toNat_le

theorem lt_iff_toNat_lt : a < b ↔ a.number.toNat < b.number.toNat := UInt64.lt_iff_toNat_lt

theorem not_lt : ¬ a < b ↔ b ≤ a := UInt64.not_lt

theorem not_le : ¬ a ≤ b ↔ b < a := UInt64.not_le

theorem lt_of_lt_of_le (h₁ : a < b) (h₂ : b ≤ c) : a < c := by
  rw [lt_iff_toNat_lt] at *
  rw [le_iff_toNat_le] at h₂
  omega

theorem lt_of_le_of_lt (h₁ : a ≤ b) (h₂ : b < c) : a < c := by
  rw [lt_iff_toNat_lt] at *
  rw [le_iff_toNat_le] at h₁
  omega

theorem le_of_lt (h : a < b) : a ≤ b := UInt64.le_of_lt h

end AccountId

namespace AccountRange

variable {r s : AccountRange} {a : AccountId}

theorem contains_iff : r.contains a = true ↔ r.first ≤ a ∧ a ≤ r.last := by
  unfold contains
  exact decide_eq_true_iff

/-- The accounts of a range are those it contains. -/
theorem mem_accounts_iff : a ∈ r.accounts ↔ r.contains a = true := by
  have hlast := r.last.number.toNat_lt_size
  unfold accounts firstAccounts size
  rw [contains_iff, AccountId.le_iff_toNat_le, AccountId.le_iff_toNat_le, Nat.min_self,
    List.mem_map]
  constructor
  · rintro ⟨i, hi, rfl⟩
    rw [List.mem_range] at hi
    dsimp only
    rw [UInt64.toNat_ofNat_of_lt' (by omega)]
    omega
  · rintro ⟨hfirst, hle⟩
    refine ⟨a.number.toNat - r.first.number.toNat, List.mem_range.2 (by omega), ?_⟩
    rw [Nat.add_sub_cancel' hfirst, UInt64.ofNat_toNat]

end AccountRange

namespace RoutingTable

variable {t : RoutingTable} {ranges : List AccountRange}
  {groups : SortedMap ShardId (List ReplicaId)} {a : AccountId} {s : ShardId}

/-- What a table has passed that was made of ranges and groups. -/
structure Sound (t : RoutingTable) : Prop where
  occupied : ∀ r ∈ t.ranges, r.first ≤ r.last
  served : ∀ r ∈ t.ranges, r.shard ∈ t.shards
  apart : t.ranges.Pairwise fun r s => r.last < s.first
  distinct : t.replicas.Nodup

theorem rangeError?_eq_none_iff : rangeError? groups ranges = none ↔
    ∀ r ∈ ranges, r.first ≤ r.last ∧ ∃ members, groups.get? r.shard = some members ∧ members ≠ [] := by
  induction ranges with
  | nil => simp [rangeError?]
  | cons r ranges ih =>
      have hserved : ((groups.get? r.shard).getD []).isEmpty = false ↔
          ∃ members, groups.get? r.shard = some members ∧ members ≠ [] := by
        cases groups.get? r.shard <;> simp
      rw [List.forall_mem_cons, ← ih, ← hserved, ← AccountId.not_lt]
      conv_lhs => unfold rangeError?
      by_cases hempty : r.last < r.first
      · simp [hempty]
      · cases hgroup : ((groups.get? r.shard).getD []).isEmpty <;> simp [hempty]

theorem overlap?_eq_none_iff :
    overlap? ranges = none ↔ ranges.IsChain fun r s => r.last < s.first := by
  induction ranges with
  | nil => simp [overlap?]
  | cons r ranges ih =>
      cases ranges with
      | nil => simp [overlap?]
      | cons s rest =>
          rw [List.isChain_cons_cons, ← ih]
          conv_lhs => unfold overlap?
          by_cases hends : r.last < s.first <;> simp [AccountRange.endsBefore, hends]

/-- If neighbours do not overlap, no two ranges do, since none of them is empty. -/
theorem pairwise_of_isChain (h : ranges.IsChain fun r s => r.last < s.first)
    (occupied : ∀ r ∈ ranges, r.first ≤ r.last) :
    ranges.Pairwise fun r s => r.last < s.first := by
  induction ranges with
  | nil => exact .nil
  | cons r ranges ih =>
      cases ranges with
      | nil => exact List.pairwise_singleton _ _
      | cons s rest =>
          obtain ⟨hnext, hrest⟩ := List.isChain_cons_cons.1 h
          have hrest := ih hrest fun u hu => occupied u (List.mem_cons_of_mem _ hu)
          refine List.pairwise_cons.2 ⟨fun u hu => ?_, hrest⟩
          rcases List.mem_cons.1 hu with rfl | hu
          · exact hnext
          · have hs : s.first ≤ s.last := occupied s (by simp)
            exact AccountId.lt_of_lt_of_le hnext (AccountId.le_of_lt
              (AccountId.lt_of_le_of_lt hs (List.rel_of_pairwise_cons hrest hu)))

theorem repeated?_eq_none_iff {seen replicas : List ReplicaId} :
    repeated? seen replicas = none ↔ replicas.Nodup ∧ ∀ r ∈ replicas, r ∉ seen := by
  induction replicas generalizing seen with
  | nil => simp [repeated?]
  | cons r replicas ih =>
      unfold repeated?
      by_cases hr : r ∈ seen
      · simp [hr]
      · rw [if_neg hr, ih, List.nodup_cons, List.forall_mem_cons]
        simp only [List.mem_cons, not_or, forall_and]
        constructor
        · rintro ⟨hnodup, hnew, hfresh⟩
          exact ⟨⟨fun hmem => hnew r hmem rfl, hnodup⟩, hr, hfresh⟩
        · rintro ⟨⟨hnew, hnodup⟩, _, hfresh⟩
          exact ⟨hnodup, fun r' hr' heq => hnew (heq ▸ hr'), hfresh⟩

/-- A table is made of the sorted ranges, if no check finds fault with them. -/
theorem ofRanges_eq_ok_iff : ofRanges ranges groups = .ok t ↔
    t = ⟨sortRanges ranges, groups⟩ ∧ rangeError? groups (sortRanges ranges) = none ∧
      overlap? (sortRanges ranges) = none ∧ repeated? [] groups.values.flatten = none := by
  have hchecks : ∀ {e₁ e₂ e₃ : Option RoutingError},
      e₁.or (e₂.or e₃) = none ↔ e₁ = none ∧ e₂ = none ∧ e₃ = none := by
    simp [Option.or_eq_none_iff]
  rw [← hchecks]
  unfold ofRanges
  dsimp only [replicas]
  split
  · next e hfault => simp [hfault]
  · next hnone => simp [hnone, eq_comm]

theorem sound_of_ofRanges (h : ofRanges ranges groups = .ok t) : t.Sound := by
  obtain ⟨rfl, hranges, hoverlap, hrepeated⟩ := ofRanges_eq_ok_iff.1 h
  have hgood := rangeError?_eq_none_iff.1 hranges
  exact {
    occupied := fun r hr => (hgood r hr).1
    served := fun r hr => SortedMap.mem_keys_iff.2 ((hgood r hr).2.imp fun _ hm => hm.1)
    apart := pairwise_of_isChain (overlap?_eq_none_iff.1 hoverlap) fun r hr => (hgood r hr).1
    distinct := (repeated?_eq_none_iff.1 hrepeated).1 }

/-- A shard is found for an account only by a range of its own in which the account lies. -/
theorem exists_range_of_shardOf? (h : t.shardOf? a = some s) :
    ∃ r ∈ t.ranges, r.shard = s ∧ r.contains a = true := by
  unfold shardOf? at h
  split at h
  · next r hlast =>
    split at h
    · next hcontains =>
      cases h
      have hmem := List.mem_of_getLast? hlast
      exact ⟨r, (List.takeWhile_sublist _).mem hmem, rfl, hcontains⟩
    · cases h
  · cases h

theorem mem_accounts_iff_exists_range :
    a ∈ t.accounts s ↔ ∃ r ∈ t.ranges, r.shard = s ∧ r.contains a = true := by
  simp only [accounts, rangesOf, List.mem_flatMap, List.mem_filter, decide_eq_true_eq,
    AccountRange.mem_accounts_iff, and_assoc]

namespace Sound

/-- The shard found for an account is that of the range in which it lies. -/
theorem shardOf?_eq_some_iff (h : t.Sound) :
    t.shardOf? a = some s ↔ ∃ r ∈ t.ranges, r.shard = s ∧ r.contains a = true := by
  constructor
  · exact exists_range_of_shardOf?
  · rintro ⟨r, hr, rfl, hcontains⟩
    obtain ⟨hfirst, hle⟩ := AccountRange.contains_iff.1 hcontains
    -- the ranges before this one start below the account, those after it start above
    obtain ⟨before, after, hsplit⟩ := List.append_of_mem hr
    have hapart := h.apart
    rw [hsplit, List.pairwise_append, List.pairwise_cons] at hapart
    obtain ⟨_, ⟨hafter, _⟩, hbefore⟩ := hapart
    have hbelow : ∀ u ∈ before, decide (u.first ≤ a) = true := by
      intro u hu
      have hu' : u.first ≤ u.last := h.occupied u (by rw [hsplit]; simp [hu])
      have hlt := AccountId.lt_of_le_of_lt hu' (hbefore u hu r List.mem_cons_self)
      exact decide_eq_true (AccountId.le_of_lt (AccountId.lt_of_lt_of_le hlt hfirst))
    have habove : after.takeWhile (fun u => decide (u.first ≤ a)) = [] := by
      cases after with
      | nil => rfl
      | cons u after =>
          refine List.takeWhile_cons_of_neg ?_
          have hlt := AccountId.lt_of_le_of_lt hle (hafter u List.mem_cons_self)
          simpa using AccountId.not_le.2 hlt
    have hstarted : (t.ranges.takeWhile fun u => u.first ≤ a) = before ++ [r] := by
      rw [hsplit, List.takeWhile_append_of_pos hbelow, List.takeWhile_cons, if_pos, habove]
      exact decide_eq_true hfirst
    unfold shardOf?
    rw [hstarted, List.getLast?_concat]
    exact if_pos hcontains

/-- The accounts listed for a shard are those that it is found for. -/
theorem mem_accounts_iff (h : t.Sound) : a ∈ t.accounts s ↔ t.shardOf? a = some s :=
  mem_accounts_iff_exists_range.trans h.shardOf?_eq_some_iff.symm

/-- A shard that owns an account has a group. -/
theorem mem_shards (h : t.Sound) (hshard : t.shardOf? a = some s) : s ∈ t.shards := by
  obtain ⟨r, hr, rfl, _⟩ := h.shardOf?_eq_some_iff.1 hshard
  exact h.served r hr

end Sound

/-- What a table does for its shards: each account is with the shard found for it, if any, and no
replica serves twice. -/
structure Partitioned (t : RoutingTable) : Prop where
  mem_accounts_iff : ∀ a s, a ∈ t.accounts s ↔ t.shardOf? a = some s
  mem_shards : ∀ a s, t.shardOf? a = some s → s ∈ t.shards
  distinct : t.replicas.Nodup

theorem Sound.partitioned (h : t.Sound) : t.Partitioned where
  mem_accounts_iff _ _ := h.mem_accounts_iff
  mem_shards _ _ := h.mem_shards
  distinct := h.distinct

/-! ### Groups -/

variable {k k' : ShardId} {r : ReplicaId}

theorem mem_group_iff :
    r ∈ t.group k ↔ ∃ members, (k, members) ∈ t.groups.toList ∧ r ∈ members := by
  unfold group
  cases hgroup : t.groups.get? k with
  | none =>
      refine iff_of_false (by simp) ?_
      rintro ⟨members, hmem, _⟩
      rw [SortedMap.get?_eq_some_iff.2 hmem] at hgroup
      cases hgroup
  | some members =>
      have hmem := SortedMap.get?_eq_some_iff.1 hgroup
      refine ⟨fun hr => ⟨members, hmem, hr⟩, ?_⟩
      rintro ⟨members', hmem', hr⟩
      rw [SortedMap.get?_eq_some_iff.2 hmem', Option.some.injEq] at hgroup
      rw [← hgroup]
      exact hr

theorem mem_replicas_iff : r ∈ t.replicas ↔ ∃ k, r ∈ t.group k := by
  simp only [mem_group_iff]
  unfold replicas SortedMap.values
  simp only [List.mem_flatten, List.mem_map]
  constructor
  · rintro ⟨_, ⟨⟨k, members⟩, hmem, rfl⟩, hr⟩
    exact ⟨k, members, hmem, hr⟩
  · rintro ⟨k, members, hmem, hr⟩
    exact ⟨members, ⟨(k, members), hmem, rfl⟩, hr⟩

/-- Without repeated replicas the groups have no member in common. -/
theorem group_unique (distinct : t.replicas.Nodup) (hr : r ∈ t.group k) (hr' : r ∈ t.group k') :
    k = k' := by
  obtain ⟨members, hmem, hr⟩ := mem_group_iff.1 hr
  obtain ⟨members', hmem', hr'⟩ := mem_group_iff.1 hr'
  by_contra hne
  have hdisjoint := List.pairwise_map.1 (List.nodup_flatten.1 distinct).2
  have hsymm : Std.Symm fun p q : ShardId × List ReplicaId => p.2.Disjoint q.2 :=
    ⟨fun _ _ h _ hr hr' => h hr' hr⟩
  have hpairs : (k, members) ≠ (k', members') := fun h => hne (congrArg Prod.fst h)
  exact hdisjoint.forall hmem hmem' hpairs hr hr'

theorem shardOfReplica?_eq_some_iff (distinct : t.replicas.Nodup) :
    t.shardOfReplica? r = some k ↔ r ∈ t.group k := by
  have hfound : ∀ k, t.shardOfReplica? r = some k → r ∈ t.group k := by
    intro k h
    unfold shardOfReplica? at h
    obtain ⟨⟨k', members⟩, hfind, rfl⟩ := Option.map_eq_some_iff.1 h
    exact mem_group_iff.2 ⟨members, List.mem_of_find?_eq_some hfind,
      by simpa using List.find?_some hfind⟩
  refine ⟨hfound k, fun hr => ?_⟩
  cases hshard : t.shardOfReplica? r with
  | none =>
      unfold shardOfReplica? at hshard
      rw [Option.map_eq_none_iff, List.find?_eq_none] at hshard
      obtain ⟨members, hmem, hr⟩ := mem_group_iff.1 hr
      exact absurd hr (by simpa using hshard _ hmem)
  | some k' => rw [group_unique distinct (hfound k' hshard) hr]

end RoutingTable

end ReplicatedLedger
