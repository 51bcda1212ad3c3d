import ReplicatedLedger.Proofs.Books.Conservation

/-!
The books of all shards together.  A transfer across shards is a debit on one of them and a credit
on another, so nothing is lost or made as soon as both have committed it.
-/

namespace ReplicatedLedger

namespace Books

variable {tid : Tid} {txn : Transaction}

/-- Whether a transfer across shards is recorded as committed. -/
def Committed (b : Books) (tid : Tid) (txn : Transaction) : Prop :=
  ∃ r ∈ b.participants.records, r.tid = tid ∧ r.txn = txn ∧ r.state = .committed

/-- Whatever is committed on one shard is committed on the shards of both of its accounts. -/
def Reconciled (routing : RoutingTable) (b : ShardId → Books) : Prop :=
  ∀ s ∈ routing.shards, ∀ tid txn, (b s).Committed tid txn → ∃ k k',
    routing.shardOf? txn.sender = some k ∧ routing.shardOf? txn.receiver = some k' ∧
      (b k).Committed tid txn ∧ (b k').Committed tid txn

section Shards

variable {routing : RoutingTable} {books : ShardId → Books} {side : Transaction → AccountId}

/-- The committed transfers of each shard that has the account on one side of them. -/
def halves (routing : RoutingTable) (books : ShardId → Books) (side : Transaction → AccountId) :
    List (Tid × Transaction) :=
  routing.shards.flatMap fun s =>
    ((books s).participants.committed.filter fun r => routing.shardOf? (side r.txn) = some s).map
      fun r => (r.tid, r.txn)

theorem mem_halves_iff (table : routing.Partitioned) : (tid, txn) ∈ halves routing books side ↔
    ∃ s, routing.shardOf? (side txn) = some s ∧ (books s).Committed tid txn := by
  unfold halves Committed Participants.committed
  simp only [List.mem_flatMap, List.mem_map, List.mem_filter, decide_eq_true_eq, Prod.mk.injEq]
  constructor
  · rintro ⟨s, _, r, ⟨⟨hr, hstate⟩, hside⟩, rfl, rfl⟩
    exact ⟨s, hside, r, hr, rfl, rfl, hstate⟩
  · rintro ⟨s, hside, r, hr, rfl, rfl, hstate⟩
    exact ⟨s, table.mem_shards _ _ hside, r, ⟨⟨hr, hstate⟩, hside⟩, rfl, rfl⟩

/-- A transfer has one shard on each side, and one record there. -/
theorem nodup_halves (distinct : ∀ s, (books s).participants.tids.Nodup) :
    (halves routing books side).Nodup := by
  refine List.nodup_flatMap.2 ⟨fun s _ => ?_, (SortedMap.keys_nodup _).imp fun {s s'} hne => ?_⟩
  · refine List.Nodup.of_map Prod.fst ?_
    rw [List.map_map]
    exact (distinct s).sublist
      ((List.filter_sublist.trans List.filter_sublist).map _)
  · rintro ⟨tid, txn⟩ hs hs'
    obtain ⟨r, hr, hr'⟩ := List.mem_map.1 hs
    obtain ⟨r₂, hr₂, hr₂'⟩ := List.mem_map.1 hs'
    have hside : routing.shardOf? (side r.txn) = some s := by
      simpa using (List.mem_filter.1 hr).2
    have hside₂ : routing.shardOf? (side r₂.txn) = some s' := by
      simpa using (List.mem_filter.1 hr₂).2
    rw [(Prod.mk.inj hr').2] at hside
    rw [(Prod.mk.inj hr₂').2, hside] at hside₂
    exact hne (Option.some.inj hside₂)

theorem sum_volume_halves (routing : RoutingTable) (books : ShardId → Books)
    (side : Transaction → AccountId) :
    (routing.shards.map fun s => volume ((books s).participants.committed.map (·.txn))
      (fun txn => routing.shardOf? (side txn) = some s)).sum =
        ((halves routing books side).map (·.2.amount.toNat)).sum := by
  unfold halves volume
  rw [List.map_flatMap, List.flatMap_def, List.sum_flatten, List.map_map]
  refine congrArg List.sum (List.map_congr_left fun s _ => ?_)
  dsimp only [Function.comp_apply]
  rw [List.map_map, List.map_map]
  exact (sum_map_filter (books s).participants.committed
    (fun r => routing.shardOf? (side r.txn) = some s) (·.txn.amount.toNat)).symm

/-- What each shard holds is what it held at first, but for what its records show as committed. -/
structure Accounted (routing : RoutingTable) (start : ShardId → Nat) (books : ShardId → Books) :
    Prop where
  distinct : ∀ s, (books s).participants.tids.Nodup
  sum_eq : ∀ s, (books s).ledger.sum + volume ((books s).participants.committed.map (·.txn))
      (routing.shardOf? ·.sender = some s) =
    start s + volume ((books s).participants.committed.map (·.txn))
      (routing.shardOf? ·.receiver = some s)

variable {start : ShardId → Nat} {books' : ShardId → Books}

/-- All shards together hold what they held at first, but for what is committed on one side only. -/
theorem Accounted.sum_add (h : Accounted routing start books) :
    (routing.shards.map fun s => (books s).ledger.sum).sum +
        ((halves routing books (·.sender)).map (·.2.amount.toNat)).sum =
      (routing.shards.map start).sum +
        ((halves routing books (·.receiver)).map (·.2.amount.toNat)).sum := by
  rw [← sum_volume_halves, ← sum_volume_halves, ← List.sum_map_add, ← List.sum_map_add]
  exact congrArg List.sum (List.map_congr_left fun s _ => h.sum_eq s)

theorem Accounted.sum_of_reconciled (h : Accounted routing start books)
    (table : routing.Partitioned) (reconciled : Reconciled routing books) :
    (routing.shards.map fun s => (books s).ledger.sum).sum = (routing.shards.map start).sum := by
  -- each committed transfer is counted once on its sender's shard and once on its receiver's
  have hsides : (halves routing books (·.sender)).Perm (halves routing books (·.receiver)) := by
    refine (List.perm_ext_iff_of_nodup (nodup_halves h.distinct) (nodup_halves h.distinct)).2 ?_
    rintro ⟨tid, txn⟩
    rw [mem_halves_iff table, mem_halves_iff table]
    constructor
    · rintro ⟨s, hs, hcommitted⟩
      obtain ⟨_, k', _, hk', _, hcommitted'⟩ :=
        reconciled s (table.mem_shards _ _ hs) tid txn hcommitted
      exact ⟨k', hk', hcommitted'⟩
    · rintro ⟨s, hs, hcommitted⟩
      obtain ⟨k, _, hk, _, hcommitted', _⟩ :=
        reconciled s (table.mem_shards _ _ hs) tid txn hcommitted
      exact ⟨k, hk, hcommitted'⟩
  have hequal := (hsides.map (·.2.amount.toNat)).sum_eq
  have htotal := h.sum_add
  omega

/-- From some books on to others the sum of all balances stays the same, if each transfer that is
committed meanwhile is committed on both of its sides. -/
theorem Accounted.sum_of_even (h : Accounted routing start books)
    (h' : Accounted routing start books')
    (lasting : ∀ side : Transaction → AccountId,
      halves routing books side ⊆ halves routing books' side)
    (even : ∀ p, p ∈ halves routing books' (·.sender) ∧ p ∉ halves routing books (·.sender) ↔
      p ∈ halves routing books' (·.receiver) ∧ p ∉ halves routing books (·.receiver)) :
    (routing.shards.map fun s => (books' s).ledger.sum).sum =
      (routing.shards.map fun s => (books s).ledger.sum).sum := by
  have hsides : (halves routing books' (·.sender) ++ halves routing books (·.receiver)).Perm
      (halves routing books (·.sender) ++ halves routing books' (·.receiver)) := by
    refine List.perm_iff_count.2 fun p => ?_
    have hsender := lasting (·.sender) (a := p)
    have hreceiver := lasting (·.receiver) (a := p)
    have heven := even p
    simp only [List.count_append, (nodup_halves h.distinct).count,
      (nodup_halves h'.distinct).count]
    split_ifs <;> simp_all
  have hequal := (hsides.map (·.2.amount.toNat)).sum_eq
  simp only [List.map_append, List.sum_append] at hequal
  have htotal := h.sum_add
  have htotal' := h'.sum_add
  omega

/-- The ledgers of all shards after any entries: each holds the accounts of its shard, and the
balances are what the trail makes of the opening balance.  Transfers within a shard keep the sum of
its balances, and once nothing is committed on one side only, all shards together hold what they
held at first. -/
theorem ledgers_explained {ranges : List AccountRange}
    {groups : SortedMap ShardId (List ReplicaId)}
    (h : RoutingTable.ofRanges ranges groups = .ok routing) (replica : ShardId → ReplicaId)
    (balance : Amount) (entries : ShardId → List LogEntry) :
    ∃ books : ShardId → Books,
      (∀ s, (opening ⟨replica s, s, routing⟩ balance).applyAll (entries s) = .ok (books s)) ∧
      (∀ s a, ((books s).ledger.balance? a).isSome = true ↔ routing.shardOf? a = some s) ∧
      (∀ s a, routing.shardOf? a = some s → (((books s).ledger.balance a).toNat : Int) =
        balance.toNat + volume (carriedOut (books s).applied) (·.receiver = a) -
          volume (carriedOut (books s).applied) (·.sender = a)) ∧
      (∀ s tid, (∃ x ∈ (books s).applied, x.entry.command = .commit tid ∧ x.outcome = .committed) ↔
        ∃ txn, preparedIn (books s).applied tid = some txn ∧ (books s).Committed tid txn) ∧
      (∀ s e tid txn, e.command = .transfer tid txn → ∃ b' outcome,
        (books s).apply e = .ok (b', outcome) ∧ b'.ledger.sum = (books s).ledger.sum) ∧
      (Reconciled routing books → (routing.shards.map fun s => (books s).ledger.sum).sum =
        (routing.shards.map fun s =>
          (opening ⟨replica s, s, routing⟩ balance).ledger.sum).sum) := by
  have sound := (RoutingTable.sound_of_ofRanges h).partitioned
  choose books happly using fun s =>
    (covered_opening ⟨replica s, s, routing⟩ balance).exists_applyAll (entries s)
  have htopology : ∀ s, (books s).topology = ⟨replica s, s, routing⟩ := fun s =>
    topology_applyAll (happly s)
  have howns : ∀ s a, (books s).topology.owns a = true ↔ routing.shardOf? a = some s := by
    intro s a
    rw [htopology]
    exact decide_eq_true_iff
  have hexplained := fun s =>
    explained_applyAll (t := ⟨replica s, s, routing⟩) sound (happly s)
  refine ⟨books, happly, fun s a => ?_, fun s a ha => ?_, fun s tid => ?_,
    fun s e tid txn he => sum_ledger_transfer (t := ⟨replica s, s, routing⟩) sound (happly s) he,
    fun reconciled => ?_⟩
  · rw [(hexplained s).2.2.held, howns]
  · have hbalance := (hexplained s).2.2.balance_eq a ((howns s a).2 ha)
    omega
  · have hdecided := (hexplained s).2.1.decided tid .committed (by simp)
    simp only [AppliedEntry.decided?_eq_committed_iff] at hdecided
    rw [← hdecided]
    simp only [(hexplained s).2.1.opened]
    unfold Participants.state? Committed
    constructor
    · intro hstate
      obtain ⟨r, hr, hstate⟩ := Option.map_eq_some_iff.1 hstate
      obtain ⟨hmem, htid⟩ := Participants.mem_of_find? hr
      exact ⟨r.txn, by rw [hr]; rfl, r, hmem, htid, rfl, hstate⟩
    · rintro ⟨_, _, r, hmem, rfl, _, hstate⟩
      rw [Participants.find?_of_mem (hexplained s).1.distinct hmem, Option.map_some, hstate]
  · refine Accounted.sum_of_reconciled ⟨fun s => (hexplained s).1.distinct, fun s => ?_⟩ sound
      reconciled
    have hsum := sum_ledger_applyAll (t := ⟨replica s, s, routing⟩) sound (happly s)
    simpa [Topology.owns] using hsum

/-- Two shards of two accounts each. -/
def twoShards : RoutingTable where
  ranges := [⟨⟨0⟩, ⟨1⟩, ⟨2⟩⟩, ⟨⟨1⟩, ⟨3⟩, ⟨4⟩⟩]
  groups := SortedMap.ofList [(⟨0⟩, [⟨1⟩]), (⟨1⟩, [⟨2⟩])]

/-- A transfer that both shards have committed. -/
theorem twoShards_explained : ∃ books : ShardId → Books,
    RoutingTable.ofRanges twoShards.ranges twoShards.groups = .ok twoShards ∧
      (∀ s, (opening ⟨⟨1⟩, s, twoShards⟩ 10).applyAll
        [⟨⟨0⟩, .zero, .prepare ⟨1⟩ ⟨⟨1⟩, ⟨3⟩, 4⟩⟩, ⟨⟨1⟩, .zero, .commit ⟨1⟩⟩] = .ok (books s)) ∧
      Reconciled twoShards books ∧
      (twoShards.shards.map fun s => (books s).ledger.sum).sum = 40 := by
  have htable : RoutingTable.ofRanges twoShards.ranges twoShards.groups = .ok twoShards := rfl
  obtain ⟨books, happly, _, _, _, _, hsum⟩ := ledgers_explained htable (fun _ => ⟨1⟩) 10
    fun _ => [⟨⟨0⟩, .zero, .prepare ⟨1⟩ ⟨⟨1⟩, ⟨3⟩, 4⟩⟩, ⟨⟨1⟩, .zero, .commit ⟨1⟩⟩]
  have hrecords : ∀ s ∈ twoShards.shards, (books s).participants.records =
      [⟨⟨1⟩, ⟨⟨1⟩, ⟨3⟩, 4⟩, .committed, 0⟩] := by
    have hshards : ∀ s ∈ twoShards.shards, (·.participants.records) <$>
        (opening ⟨⟨1⟩, s, twoShards⟩ 10).applyAll
          [⟨⟨0⟩, .zero, .prepare ⟨1⟩ ⟨⟨1⟩, ⟨3⟩, 4⟩⟩, ⟨⟨1⟩, .zero, .commit ⟨1⟩⟩] =
        .ok [⟨⟨1⟩, ⟨⟨1⟩, ⟨3⟩, 4⟩, .committed, 0⟩] := by decide
    intro s hs
    obtain ⟨b, hb, hrecords⟩ := map_eq_ok_iff.1 (hshards s hs)
    rw [happly s] at hb
    cases hb
    exact hrecords
  have hreconciled : Reconciled twoShards books := by
    rintro s hs tid txn ⟨r, hr, rfl, rfl, _⟩
    rw [hrecords s hs, List.mem_singleton] at hr
    have hcommitted : ∀ k ∈ twoShards.shards, (books k).Committed r.tid r.txn := by
      intro k hk
      exact ⟨r, by rw [hrecords k hk, hr]; simp, rfl, rfl, by rw [hr]⟩
    have hsender : twoShards.shardOf? r.txn.sender = some ⟨0⟩ := by
      rw [hr]
      decide
    have hreceiver : twoShards.shardOf? r.txn.receiver = some ⟨1⟩ := by
      rw [hr]
      decide
    exact ⟨⟨0⟩, ⟨1⟩, hsender, hreceiver, hcommitted _ (by decide), hcommitted _ (by decide)⟩
  exact ⟨books, htable, happly, hreconciled, hsum hreconciled⟩

end Shards

end Books

end ReplicatedLedger
