import ReplicatedLedger.Proofs.Routing

/-!
Which ranges and groups make up a table, and how it shares out accounts and replicas.  The ranges
come in any order; only neighbours are compared once they are sorted, and an account is looked up in
the last range that starts at or below it.
-/

namespace ReplicatedLedger

namespace AccountRange

variable {r s : AccountRange} {a : AccountId}

/-- Of two ranges with no account in common, one that starts first ends before the other starts. -/
theorem last_lt_first (occupied : s.first ≤ s.last) (starts : r.first ≤ s.first)
    (disjoint : ∀ a, r.contains a = true → s.contains a = false) : r.last < s.first := by
  by_contra hends
  have hr : r.contains s.first = true := contains_iff.2 ⟨starts, AccountId.not_lt.1 hends⟩
  have hs : s.contains s.first = true := contains_iff.2 ⟨UInt64.le_refl _, occupied⟩
  rw [disjoint _ hr] at hs
  cases hs

theorem not_contains_of_last_lt (h : r.last < s.first) (ha : r.contains a = true) :
    s.contains a = false := by
  rw [← Bool.not_eq_true, contains_iff, not_and_or]
  exact .inl (AccountId.not_le.2 (AccountId.lt_of_le_of_lt (contains_iff.1 ha).2 h))

theorem pairwise_accounts (r : AccountRange) : r.accounts.Pairwise (· < ·) := by
  have hlast := r.last.number.toNat_lt_size
  unfold accounts firstAccounts size
  rw [Nat.min_self, List.pairwise_map]
  refine List.pairwise_lt_range.imp_of_mem fun {i j} hi hj hlt => ?_
  rw [List.mem_range] at hi hj
  rw [AccountId.lt_iff_toNat_lt, UInt64.toNat_ofNat_of_lt' (by omega),
    UInt64.toNat_ofNat_of_lt' (by omega)]
  omega

end AccountRange

namespace RoutingTable

variable {t : RoutingTable} {ranges : List AccountRange}
  {groups : SortedMap ShardId (List ReplicaId)} {a : AccountId} {s : ShardId} {r : AccountRange}

/-! ### Sorting -/

theorem placeRange_perm (r : AccountRange) (ranges : List AccountRange) :
    (placeRange r ranges).Perm (r :: ranges) := by
  induction ranges with
  | nil => exact .refl _
  | cons s rest ih =>
      unfold placeRange
      split
      · exact (ih.cons s).trans (.swap r s rest)
      · exact .refl _

theorem sortRanges_perm (ranges : List AccountRange) : (sortRanges ranges).Perm ranges := by
  induction ranges with
  | nil => exact .refl _
  | cons r ranges ih => exact (placeRange_perm r _).trans (ih.cons r)

/-- Whether ranges come in the order of their first accounts. -/
def Ascending (ranges : List AccountRange) : Prop := ranges.Pairwise fun r s => r.first ≤ s.first

theorem ascending_placeRange (h : Ascending ranges) (r : AccountRange) :
    Ascending (placeRange r ranges) := by
  induction ranges with
  | nil => exact List.pairwise_singleton _ _
  | cons s rest ih =>
      obtain ⟨hs, hrest⟩ := List.pairwise_cons.1 h
      unfold placeRange
      split
      · next hlt =>
        refine List.pairwise_cons.2 ⟨fun u hu => ?_, ih hrest⟩
        rcases List.mem_cons.1 ((placeRange_perm r rest).mem_iff.1 hu) with rfl | hu
        · exact AccountId.le_of_lt hlt
        · exact hs u hu
      · next hge =>
        have hle : r.first ≤ s.first := AccountId.not_lt.1 hge
        refine List.pairwise_cons.2 ⟨fun u hu => ?_, h⟩
        rcases List.mem_cons.1 hu with rfl | hu
        · exact hle
        · exact UInt64.le_trans hle (hs u hu)

theorem ascending_sortRanges (ranges : List AccountRange) : Ascending (sortRanges ranges) := by
  induction ranges with
  | nil => exact .nil
  | cons r ranges ih => exact ascending_placeRange ih r

/-! ### What a table takes -/

/-- Ranges and groups of which a table can be made. -/
structure Admissible (ranges : List AccountRange) (groups : SortedMap ShardId (List ReplicaId)) :
    Prop where
  occupied : ∀ r ∈ ranges, r.first ≤ r.last
  disjoint : ranges.Pairwise fun r s => ∀ a, r.contains a = true → s.contains a = false
  served : ∀ r ∈ ranges, ∃ members, groups.get? r.shard = some members ∧ members ≠ []
  /-- No group has a member twice. -/
  within : ∀ k members, groups.get? k = some members → members.Nodup
  /-- No two groups have a member in common. -/
  across : ∀ k k' members members' q, groups.get? k = some members →
    groups.get? k' = some members' → q ∈ members → q ∈ members' → k = k'

theorem nodup_values_flatten_iff : groups.values.flatten.Nodup ↔
    (∀ k members, groups.get? k = some members → members.Nodup) ∧
      ∀ k k' members members' q, groups.get? k = some members →
        groups.get? k' = some members' → q ∈ members → q ∈ members' → k = k' := by
  constructor
  · intro distinct
    refine ⟨fun k members hk => ?_, fun k k' members members' q hk hk' hq hq' => ?_⟩
    · exact (List.nodup_flatten.1 distinct).1 _ (SortedMap.mem_values_iff.2 ⟨k, hk⟩)
    · have hgroup : ∀ {k members}, groups.get? k = some members → q ∈ members →
          q ∈ group ⟨[], groups⟩ k := by
        intro k members hk hq
        unfold group
        rw [hk]
        exact hq
      exact group_unique (t := ⟨[], groups⟩) distinct (hgroup hk hq) (hgroup hk' hq')
  · rintro ⟨within, across⟩
    unfold SortedMap.values
    refine List.nodup_flatten.2 ⟨fun members hm => ?_, List.pairwise_map.2 ?_⟩
    · obtain ⟨k, hk⟩ := SortedMap.mem_values_iff.1 hm
      exact within k members hk
    · refine groups.ascending.imp_of_mem fun {p p'} hp hp' hlt q hq hq' => ?_
      have hsame := across _ _ _ _ q (SortedMap.get?_eq_some_iff.2 hp)
        (SortedMap.get?_eq_some_iff.2 hp') hq hq'
      rw [hsame, Std.compare_self] at hlt
      cases hlt

/-- Ranges that are in order are apart from each other if neighbours are. -/
theorem isChain_sortRanges_iff (occupied : ∀ r ∈ ranges, r.first ≤ r.last) :
    (sortRanges ranges).IsChain (fun r s => r.last < s.first) ↔
      ranges.Pairwise fun r s => ∀ a, r.contains a = true → s.contains a = false := by
  have hperm := sortRanges_perm ranges
  have hoccupied : ∀ r ∈ sortRanges ranges, r.first ≤ r.last := fun r hr =>
    occupied r (hperm.mem_iff.1 hr)
  have hsymm : ∀ {r s : AccountRange}, (∀ a, r.contains a = true → s.contains a = false) →
      ∀ a, s.contains a = true → r.contains a = false := by
    intro r s h a ha
    by_contra hr
    rw [h a (by simpa using hr)] at ha
    cases ha
  rw [← hperm.pairwise_iff hsymm]
  constructor
  · intro hchain
    exact (pairwise_of_isChain hchain hoccupied).imp fun hlt a =>
      AccountRange.not_contains_of_last_lt hlt
  · intro hdisjoint
    refine List.Pairwise.isChain ?_
    refine ((ascending_sortRanges ranges).and hdisjoint).imp_of_mem fun {r s} _ hs h => ?_
    exact AccountRange.last_lt_first (hoccupied s hs) h.1 h.2

theorem exists_ofRanges_iff :
    (∃ t, ofRanges ranges groups = .ok t) ↔ Admissible ranges groups := by
  have hmem : ∀ r, r ∈ sortRanges ranges ↔ r ∈ ranges := fun r => (sortRanges_perm ranges).mem_iff
  simp only [ofRanges_eq_ok_iff, exists_eq_left, rangeError?_eq_none_iff, overlap?_eq_none_iff,
    repeated?_eq_none_iff, hmem, nodup_values_flatten_iff, List.not_mem_nil, not_false_iff,
    implies_true, and_true]
  constructor
  · rintro ⟨hgood, hchain, within, across⟩
    have occupied : ∀ r ∈ ranges, r.first ≤ r.last := fun r hr => (hgood r hr).1
    exact ⟨occupied, (isChain_sortRanges_iff occupied).1 hchain, fun r hr => (hgood r hr).2,
      within, across⟩
  · intro h
    exact ⟨fun r hr => ⟨h.occupied r hr, h.served r hr⟩,
      (isChain_sortRanges_iff h.occupied).2 h.disjoint, h.within, h.across⟩

/-- Ranges in order stay as they are. -/
theorem sortRanges_of_ascending (h : Ascending ranges) : sortRanges ranges = ranges := by
  induction ranges with
  | nil => rfl
  | cons r rest ih =>
      obtain ⟨hr, hrest⟩ := List.pairwise_cons.1 h
      show placeRange r (sortRanges rest) = _
      rw [ih hrest]
      cases rest with
      | nil => rfl
      | cons s rest => exact if_neg (AccountId.not_lt.2 (hr s List.mem_cons_self))

/-! ### Accounts in order -/

theorem Sound.ascending (h : t.Sound) : Ascending t.ranges :=
  h.apart.imp_of_mem fun hr _ hlt =>
    AccountId.le_of_lt (AccountId.lt_of_le_of_lt (h.occupied _ hr) hlt)

/-- A sound table in which no group is empty passes all checks again, unchanged. -/
theorem Sound.ofRanges_eq (h : t.Sound)
    (manned : ∀ k members, t.groups.get? k = some members → members ≠ []) :
    ofRanges t.ranges t.groups = .ok t := by
  have hsorted := sortRanges_of_ascending h.ascending
  refine ofRanges_eq_ok_iff.2 ⟨by rw [hsorted], ?_, ?_, ?_⟩
  · rw [hsorted, rangeError?_eq_none_iff]
    intro r hr
    obtain ⟨members, hmembers⟩ := SortedMap.mem_keys_iff.1 (h.served r hr)
    exact ⟨h.occupied r hr, members, hmembers, manned r.shard members hmembers⟩
  · rw [hsorted, overlap?_eq_none_iff]
    exact h.apart.isChain
  · exact repeated?_eq_none_iff.2 ⟨h.distinct, fun _ _ => List.not_mem_nil⟩

theorem Sound.pairwise_accounts (h : t.Sound) (s : ShardId) :
    (t.accounts s).Pairwise (· < ·) := by
  unfold accounts rangesOf
  refine List.pairwise_flatMap.2 ⟨fun r _ => r.pairwise_accounts, ?_⟩
  refine (h.apart.filter _).imp fun {r r'} hlt a ha a' ha' => ?_
  have hle := (AccountRange.contains_iff.1 (AccountRange.mem_accounts_iff.1 ha)).2
  have hge := (AccountRange.contains_iff.1 (AccountRange.mem_accounts_iff.1 ha')).1
  exact AccountId.lt_of_lt_of_le (AccountId.lt_of_le_of_lt hle hlt) hge

/-! ### Looking up by halves -/

/-- How many ranges start at or below an account.  The number lies between `low` and `high`, and
what lies between them is halved until nothing is left. -/
def startedBy (ranges : List AccountRange) (a : AccountId) (low high : Nat) : Nat :=
  if low < high then
    let middle := (low + high) / 2
    if ranges[middle]?.any (·.first ≤ a) then startedBy ranges a (middle + 1) high
    else startedBy ranges a low middle
  else low
termination_by high - low

/-- The shard that owns an account, looked up without going through all ranges. -/
def searchShard? (t : RoutingTable) (a : AccountId) : Option ShardId :=
  match startedBy t.ranges a 0 t.ranges.length with
  | 0 => none
  | n + 1 => t.ranges[n]?.bind fun r => if r.contains a then some r.shard else none

/-- Of ranges in order, the first ones start at or below an account, and then no more do. -/
theorem first_le_iff_lt (h : Ascending ranges) {i : Nat} (hi : i < ranges.length) :
    ranges[i].first ≤ a ↔ i < (ranges.takeWhile fun r => r.first ≤ a).length := by
  induction ranges generalizing i with
  | nil => cases hi
  | cons r rest ih =>
      obtain ⟨hr, hrest⟩ := List.pairwise_cons.1 h
      by_cases hle : r.first ≤ a
      · rw [List.takeWhile_cons_of_pos (by simpa using hle), List.length_cons]
        cases i with
        | zero => simpa using hle
        | succ i => rw [List.getElem_cons_succ, ih hrest (by simpa using hi), Nat.succ_lt_succ_iff]
      · rw [List.takeWhile_cons_of_neg (by simpa using hle)]
        refine iff_of_false (fun hi' => hle ?_) (Nat.not_lt_zero _)
        cases i with
        | zero => exact hi'
        | succ i => exact UInt64.le_trans (hr _ (List.getElem_mem _)) hi'

theorem startedBy_eq (h : Ascending ranges) {low high : Nat} (hhigh : high ≤ ranges.length)
    (above : low ≤ (ranges.takeWhile fun r => r.first ≤ a).length)
    (below : (ranges.takeWhile fun r => r.first ≤ a).length ≤ high) :
    startedBy ranges a low high = (ranges.takeWhile fun r => r.first ≤ a).length := by
  fun_induction startedBy ranges a low high with
  | case1 low high hlt middle hstarts ih =>
      have hmiddle : middle < ranges.length := by omega
      rw [List.getElem?_eq_getElem hmiddle, Option.any_some, decide_eq_true_eq] at hstarts
      exact ih hhigh ((first_le_iff_lt h hmiddle).1 hstarts) below
  | case2 low high hlt middle hstarts ih =>
      have hmiddle : middle < ranges.length := by omega
      rw [List.getElem?_eq_getElem hmiddle, Option.any_some, decide_eq_true_eq,
        first_le_iff_lt h hmiddle] at hstarts
      exact ih (Nat.le_of_lt hmiddle) above (Nat.not_lt.1 hstarts)
  | case3 low high hge => omega

theorem searchShard?_eq (h : Ascending t.ranges) (a : AccountId) :
    t.searchShard? a = t.shardOf? a := by
  have hprefix := List.takeWhile_prefix (l := t.ranges) fun r => decide (r.first ≤ a)
  unfold searchShard? shardOf?
  rw [startedBy_eq h (Nat.le_refl _) (Nat.zero_le _) hprefix.length_le, List.getLast?_eq_getElem?]
  split
  · next hnone => rw [hnone, List.length_eq_zero_iff.1 hnone]; rfl
  · next n hn =>
    have hlt : n < (t.ranges.takeWhile fun r => r.first ≤ a).length := by omega
    rw [hn, Nat.succ_sub_one, List.getElem?_eq_getElem hlt, hprefix.getElem hlt,
      List.getElem?_eq_getElem (Nat.lt_of_lt_of_le hlt hprefix.length_le)]
    rfl

/-! ### The table -/

/-- A table can be made of ranges and groups if and only if no range is empty or shares an account
with another one, every range has replicas to serve it, and no replica occurs twice.  The table
finds for an account the shard of the range in which it lies, by going through the ranges or by
halving them; it lists the accounts of a shard in ascending order, and finds for each of its
replicas the one shard that it serves. -/
theorem ofRanges_partitions (ranges : List AccountRange)
    (groups : SortedMap ShardId (List ReplicaId)) :
    ((∃ t, ofRanges ranges groups = .ok t) ↔ Admissible ranges groups) ∧
      ∀ t, ofRanges ranges groups = .ok t →
        (∀ a s, (t.shardOf? a = some s ↔ ∃ r ∈ ranges, r.shard = s ∧ r.contains a = true) ∧
          (t.shardOf? a = some s ↔ a ∈ t.accounts s)) ∧
        (∀ a, t.searchShard? a = t.shardOf? a) ∧
        (∀ s, (t.accounts s).Pairwise (· < ·)) ∧
        ∀ q ∈ t.replicas, ∃ s, t.shardOfReplica? q = some s ∧ ∀ s', q ∈ t.group s' ↔ s' = s := by
  refine ⟨exists_ofRanges_iff, fun t ht => ?_⟩
  have sound := sound_of_ofRanges ht
  have hranges : t.ranges = sortRanges ranges := congrArg _ (ofRanges_eq_ok_iff.1 ht).1
  have hmem : ∀ r, r ∈ t.ranges ↔ r ∈ ranges := fun r => by
    rw [hranges]
    exact (sortRanges_perm ranges).mem_iff
  refine ⟨fun a s => ⟨?_, sound.mem_accounts_iff.symm⟩, searchShard?_eq sound.ascending,
    sound.pairwise_accounts, fun q hq => ?_⟩
  · rw [sound.shardOf?_eq_some_iff]
    simp only [hmem]
  · obtain ⟨s, hs⟩ := mem_replicas_iff.1 hq
    refine ⟨s, (shardOfReplica?_eq_some_iff sound.distinct).2 hs, fun s' => ⟨fun hs' => ?_, ?_⟩⟩
    · exact group_unique sound.distinct hs' hs
    · rintro rfl
      exact hs

/-- Two ranges out of order that touch, and that hold all account numbers between them. -/
theorem ofRanges_partitions_touching : ∃ t,
    ofRanges [⟨⟨1⟩, ⟨5⟩, ⟨18446744073709551615⟩⟩, ⟨⟨0⟩, ⟨0⟩, ⟨4⟩⟩]
        ((∅ : SortedMap ShardId (List ReplicaId)).insert ⟨0⟩ [⟨1⟩, ⟨2⟩] |>.insert ⟨1⟩ [⟨3⟩]) = .ok t ∧
      t.searchShard? ⟨0⟩ = some ⟨0⟩ ∧ t.searchShard? ⟨4⟩ = some ⟨0⟩ ∧
      t.searchShard? ⟨5⟩ = some ⟨1⟩ ∧ t.searchShard? ⟨18446744073709551615⟩ = some ⟨1⟩ ∧
      (t.accounts ⟨1⟩).Pairwise (· < ·) ∧ ∀ s, ⟨2⟩ ∈ t.group s ↔ s = ⟨0⟩ := by
  obtain ⟨t, htable⟩ : ∃ t, ofRanges [⟨⟨1⟩, ⟨5⟩, ⟨18446744073709551615⟩⟩, ⟨⟨0⟩, ⟨0⟩, ⟨4⟩⟩]
      ((∅ : SortedMap ShardId (List ReplicaId)).insert ⟨0⟩ [⟨1⟩, ⟨2⟩] |>.insert ⟨1⟩ [⟨3⟩]) = .ok t :=
    ⟨_, rfl⟩
  obtain ⟨_, hsearch, hascending, hgroup⟩ := (ofRanges_partitions _ _).2 t htable
  refine ⟨t, htable, ?_⟩
  simp only [hsearch]
  cases htable
  obtain ⟨s, hs, hunique⟩ := hgroup ⟨2⟩ (by decide)
  obtain rfl : (⟨0⟩ : ShardId) = s := Option.some.inj hs
  exact ⟨by decide, by decide, by decide, by decide, hascending ⟨1⟩, hunique⟩

end RoutingTable

end ReplicatedLedger
