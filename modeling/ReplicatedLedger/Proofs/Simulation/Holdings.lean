import ReplicatedLedger.Proofs.Books.Reconciliation
import ReplicatedLedger.Proofs.Simulation.Atomicity

/-!
What all shards of a simulation hold together.  Each shard counts with the books of a replica that
no other is ahead of, so that whatever any replica of a shard shows counts from then on.
-/

namespace ReplicatedLedger

namespace Books

variable {b : Books} {tid : Tid} {txn : Transaction}

/-- A transfer is recorded as committed if the books show both that it was prepared and that it was
committed. -/
theorem committed_iff_shows (distinct : b.participants.tids.Nodup) :
    b.Committed tid txn ↔ b.Shows (.prepare tid txn) ∧ b.Shows (.commit tid) := by
  constructor
  · rintro ⟨r, hr, rfl, rfl, hstate⟩
    have found := Participants.find?_of_mem distinct hr
    refine ⟨⟨r, found, rfl⟩, ?_⟩
    exact (Participants.state?_of_find? found).trans (congrArg some hstate)
  · rintro ⟨⟨r, found, rfl⟩, hcommit⟩
    obtain ⟨hmem, htid⟩ := Participants.mem_of_find? found
    have hstate := (Participants.state?_of_find? found).symm.trans hcommit
    exact ⟨r, hmem, htid, rfl, Option.some.inj hstate⟩

end Books

namespace Simulation

section Leading

variable {s : Simulation Replica} {k : ShardId} {b : Books} {best : Option Books}
  {replicas : List Replica}

/-- The books of a replica, unless those taken so far are ahead of them. -/
def furthest (best : Option Books) (r : Replica) : Option Books :=
  best.elim (some r.books) fun b =>
    if r.books.applied.length < b.applied.length then some b else some r.books

theorem leadingBooks?_eq_foldl : s.leadingBooks? k =
    ((s.routing.group k).filterMap s.machines.get?).foldl furthest none := by
  unfold leadingBooks?
  congr
  funext best r
  cases best <;> rfl

theorem exists_furthest (best : Option Books) (r : Replica) : ∃ b, furthest best r = some b ∧
    (best = some b ∨ r.books = b) ∧ r.books.applied.length ≤ b.applied.length ∧
      ∀ b', best = some b' → b'.applied.length ≤ b.applied.length := by
  cases best with
  | none => exact ⟨r.books, rfl, .inr rfl, Nat.le_refl _, by simp⟩
  | some b =>
      by_cases hlt : r.books.applied.length < b.applied.length
      · refine ⟨b, if_pos hlt, .inl rfl, Nat.le_of_lt hlt, fun b' hb' => ?_⟩
        cases hb'
        exact Nat.le_refl _
      · refine ⟨r.books, if_neg hlt, .inr rfl, Nat.le_refl _, fun b' hb' => ?_⟩
        cases hb'
        exact Nat.not_lt.1 hlt

theorem foldl_furthest_ne_none (h : best ≠ none ∨ replicas ≠ []) :
    replicas.foldl furthest best ≠ none := by
  induction replicas generalizing best with
  | nil => exact h.resolve_right (by simp)
  | cons r replicas ih =>
      obtain ⟨b, hb, _⟩ := exists_furthest best r
      exact ih (.inl (by simp [hb]))

/-- The books taken are those of one of the replicas, and none of them are ahead. -/
theorem foldl_furthest_eq_some (h : replicas.foldl furthest best = some b) :
    (best = some b ∨ ∃ r ∈ replicas, r.books = b) ∧
      (∀ b', best = some b' → b'.applied.length ≤ b.applied.length) ∧
        ∀ r ∈ replicas, r.books.applied.length ≤ b.applied.length := by
  induction replicas generalizing best with
  | nil =>
      have h : best = some b := h
      simp [h]
  | cons r replicas ih =>
      obtain ⟨m, hm, hsource, hr, hbest⟩ := exists_furthest best r
      obtain ⟨hfrom, hbegun, hrest⟩ := ih h
      have hle := hbegun m hm
      refine ⟨?_, fun b' hb' => (hbest b' hb').trans hle, ?_⟩
      · rcases hfrom with hfirst | ⟨r', hr', hbooks⟩
        · rw [hm, Option.some.injEq] at hfirst
          rw [← hfirst]
          exact hsource.imp_right fun hbooks => ⟨r, List.mem_cons_self, hbooks⟩
        · exact .inr ⟨r', List.mem_cons_of_mem _ hr', hbooks⟩
      · intro r' hr'
        rcases List.mem_cons.1 hr' with rfl | hr'
        · exact hr.trans hle
        · exact hrest r' hr'

theorem leadingBooks?_eq_some (h : s.leadingBooks? k = some b) :
    (∃ r ∈ s.routing.group k, ∃ machine, s.machines.get? r = some machine ∧ machine.books = b) ∧
      ∀ r ∈ s.routing.group k, ∀ machine, s.machines.get? r = some machine →
        machine.books.applied.length ≤ b.applied.length := by
  rw [leadingBooks?_eq_foldl] at h
  obtain ⟨hfrom, _, hahead⟩ := foldl_furthest_eq_some h
  obtain ⟨machine, hmem, hbooks⟩ := hfrom.resolve_left (by simp)
  obtain ⟨r, hr, hmachine⟩ := List.mem_filterMap.1 hmem
  refine ⟨⟨r, hr, machine, hmachine, hbooks⟩, fun r' hr' machine' hmachine' => ?_⟩
  exact hahead machine' (List.mem_filterMap.2 ⟨r', hr', hmachine'⟩)

end Leading

/-! ### All shards together -/

section Holdings

variable {s : Simulation Replica} {total : Amount} {fault : Fault}

/-- The books that count for a shard.  A shard without replicas has none to show. -/
def countedBooks (s : Simulation Replica) (k : ShardId) : Books :=
  (s.leadingBooks? k).getD { topology := ⟨⟨0⟩, k, s.routing⟩, ledger := {} }

/-- What all shards hold together. -/
def holdings (s : Simulation Replica) : Nat :=
  (s.routing.shards.map fun k => (s.countedBooks k).ledger.sum).sum

theorem holdings_eq_sum : s.holdings =
    ((s.routing.shards.filterMap s.leadingBooks?).map (·.ledger.sum)).sum := by
  unfold holdings countedBooks
  induction s.routing.shards with
  | nil => rfl
  | cons k shards ih =>
      rw [List.map_cons, List.sum_cons, ih, List.filterMap_cons]
      cases s.leadingBooks? k with
      | none =>
          show 0 + _ = _
          rw [Nat.zero_add]
      | some b => rfl

theorem totalBalance_eq_ok_iff : s.totalBalance = .ok total ↔ total.toNat = s.holdings := by
  rw [holdings_eq_sum]
  unfold totalBalance
  generalize s.routing.shards.filterMap s.leadingBooks? = shown
  have hamounts : ∀ amounts, shown.mapM (·.ledger.total) = .ok amounts ↔
      shown.map (·.ledger.sum) = amounts.map (·.toNat) := by
    have heach : ∀ (b : Books) amount,
        b.ledger.total = .ok amount ↔ b.ledger.sum = amount.toNat :=
      fun b amount => Word.total_eq_ok_iff.trans eq_comm
    intro amounts
    rw [mapM_eq_ok_iff, ← List.forall₂_eq_eq_eq, List.forall₂_map_left_iff,
      List.forall₂_map_right_iff]
    simp only [heach]
  simp only [bind_eq_ok_iff, hamounts, Word.total_eq_ok_iff]
  constructor
  · rintro ⟨amounts, hshown, htotal⟩
    rw [htotal, hshown]
  · intro htotal
    have hfits : ∀ b ∈ shown, b.ledger.sum < UInt64.size := by
      intro b hb
      have hle := List.single_le_sum (by simp) _ (List.mem_map_of_mem (f := (·.ledger.sum)) hb)
      have hsize := total.toNat_lt_size
      omega
    have hwords : shown.map (·.ledger.sum) =
        (shown.map fun b => UInt64.ofNat b.ledger.sum).map (·.toNat) := by
      rw [List.map_map]
      refine List.map_congr_left fun b hb => ?_
      exact (UInt64.toNat_ofNat_of_lt' (hfits b hb)).symm
    exact ⟨_, hwords, by rw [htotal, hwords]⟩

theorem eq_of_totalBalance_eq_error (h : s.totalBalance = .error fault) : fault = .sum := by
  unfold totalBalance at h
  cases hamounts : (s.routing.shards.filterMap s.leadingBooks?).mapM (·.ledger.total) with
  | error fault' =>
      rw [hamounts] at h
      cases h
      obtain ⟨b, _, hb⟩ := mapM_eq_error hamounts
      exact Word.eq_of_total_eq_error hb
  | ok amounts =>
      rw [hamounts] at h
      exact Word.eq_of_total_eq_error h

/-- The total is that of the holdings, be it a word or not. -/
theorem totalBalance_congr {s' : Simulation Replica} (h : s'.holdings = s.holdings) :
    s'.totalBalance = s.totalBalance := by
  cases htotal : s.totalBalance with
  | ok total => exact totalBalance_eq_ok_iff.2 ((totalBalance_eq_ok_iff.1 htotal).trans h.symm)
  | error fault =>
      cases htotal' : s'.totalBalance with
      | ok total =>
          have hsame := totalBalance_eq_ok_iff.2 ((totalBalance_eq_ok_iff.1 htotal').trans h)
          rw [htotal] at hsame
          cases hsame
      | error fault' =>
          rw [eq_of_totalBalance_eq_error htotal, eq_of_totalBalance_eq_error htotal']

end Holdings

/-! ### What is committed -/

/-- Whether the shard that has an account shows a transfer as committed. -/
def CommittedFor (s : Simulation Replica) (a : AccountId) (tid : Tid) (txn : Transaction) : Prop :=
  ∃ k b, s.routing.shardOf? a = some k ∧ s.leadingBooks? k = some b ∧ b.Committed tid txn

/-- Whether a transfer that was committed between two moments was committed on both of its sides. -/
def Even (s s' : Simulation Replica) (tid : Tid) (txn : Transaction) : Prop :=
  s'.CommittedFor txn.sender tid txn ∧ ¬ s.CommittedFor txn.sender tid txn ↔
    s'.CommittedFor txn.receiver tid txn ∧ ¬ s.CommittedFor txn.receiver tid txn

section Records

variable {routing : RoutingTable} {policy : ReplicaPolicy} {c c' : Chronicle} {k : ShardId}
  {s s' : Simulation Replica} {r : ReplicaId} {b : Books} {a : AccountId} {tid : Tid}
  {txn : Transaction} {side : Transaction → AccountId}

namespace Records

theorem exists_leading (h : Records routing policy c s) (hr : r ∈ routing.group k) :
    ∃ b, s.leadingBooks? k = some b := by
  refine Option.ne_none_iff_exists'.1 ?_
  rw [leadingBooks?_eq_foldl, h.table]
  refine foldl_furthest_ne_none (.inr (List.ne_nil_of_mem (a := (c.worlds k).machine r) ?_))
  exact List.mem_filterMap.2 ⟨r, hr, (h.machines r _).2 ⟨k, hr, rfl⟩⟩

theorem leading (h : Records routing policy c s) (hb : s.leadingBooks? k = some b) :
    ∃ r ∈ routing.group k, ((c.worlds k).machine r).books = b ∧ ∀ q ∈ routing.group k,
      ((c.worlds k).machine q).books.applied.length ≤ b.applied.length := by
  obtain ⟨⟨r, hr, machine, hmachine, hbooks⟩, hahead⟩ := leadingBooks?_eq_some hb
  rw [h.table] at hr hahead
  have hsame := hmachine.symm.trans ((h.machines r _).2 ⟨k, hr, rfl⟩)
  rw [Option.some.inj hsame] at hbooks
  exact ⟨r, hr, hbooks, fun q hq => hahead q hq _ ((h.machines q _).2 ⟨k, hq, rfl⟩)⟩

/-- The books that count for a shard lead on from those that any replica kept before. -/
theorem deeds_begin (h : Records routing policy c s) (h' : Records routing policy c' s')
    (hcontinues : Chronicle.Continues routing policy c c') (hr : r ∈ routing.group k)
    (hb : s'.leadingBooks? k = some b) :
    ((c.worlds k).machine r).books.applied.map (·.deed) <+: b.applied.map (·.deed) := by
  obtain ⟨more, _, hhistory⟩ := hcontinues.onwards k
  have hgrows := hhistory.applied_grows ((h.history k).inOrder (Group.inOrder_replicas _ _)) r
  refine (hgrows.map _).trans ?_
  obtain ⟨q, _, rfl, hahead⟩ := h'.leading hb
  have hinOrder := (h'.history k).inOrder (Group.inOrder_replicas _ _)
  refine List.prefix_iff_getElem?.2 fun i hi => ?_
  rw [List.length_map] at hi
  have hj := Nat.lt_of_lt_of_le hi (hahead r hr)
  have ha := List.getElem?_eq_getElem hi
  have ha' := List.getElem?_eq_getElem hj
  obtain ⟨_, hcommand, houtcome⟩ := hinOrder.deed_eq ha ha'
  rw [List.getElem?_map, ha', Option.map_some, List.getElem_map, Option.some.injEq]
  exact Prod.ext hcommand.symm houtcome.symm

/-- The books that count for a shard are what some entries make of its opening. -/
theorem exists_applyAll (h : Records routing policy c s) (hb : s.leadingBooks? k = some b) :
    ∃ r entries, (Books.opening ⟨r, k, routing⟩ policy.initialBalance).applyAll entries = .ok b := by
  obtain ⟨r, _, rfl, _⟩ := h.leading hb
  have hinOrder := (h.history k).inOrder (Group.inOrder_replicas _ _)
  have hreplays := (hinOrder.replays r).books
  have hplaced : ((c.worlds k).machine r).log.topology = ⟨r, k, routing⟩ :=
    hinOrder.steady.sound.placed r
  rw [hplaced] at hreplays
  exact ⟨r, _, hreplays⟩

theorem traced_leading (h : Records routing policy c s) (hb : s.leadingBooks? k = some b) :
    b.Traced := by
  obtain ⟨r, entries, happly⟩ := h.exists_applyAll hb
  exact (Books.traced_opening _ _).applyAll happly

theorem distinct_leading (h : Records routing policy c s) (hb : s.leadingBooks? k = some b) :
    b.participants.tids.Nodup := by
  obtain ⟨r, entries, happly⟩ := h.exists_applyAll hb
  exact ((Books.covered_opening _ _).applyAll happly).distinct

/-- Once a replica of a shard has shown a transfer as prepared and one as committed, it counts as
committed there. -/
theorem committedFor (h : Records routing policy c s) (h' : Records routing policy c' s')
    (hcontinues : Chronicle.Continues routing policy c c') (hk : routing.shardOf? a = some k)
    {q : ReplicaId} (hr : r ∈ routing.group k) (hq : q ∈ routing.group k)
    (hprepared : ((c.worlds k).machine r).books.Shows (.prepare tid txn))
    (hcommitted : ((c.worlds k).machine q).books.Shows (.commit tid)) :
    s'.CommittedFor a tid txn := by
  obtain ⟨b, hb⟩ := h'.exists_leading hr
  have htraced := h'.traced_leading hb
  refine ⟨k, b, by rw [h'.table]; exact hk, hb, ?_⟩
  rw [Books.committed_iff_shows (h'.distinct_leading hb)]
  exact ⟨((h.history k).traced r).shows_prepare_of_deeds htraced
      (h.deeds_begin h' hcontinues hr hb) hprepared,
    ((h.history k).traced q).shows_commit_of_deeds htraced
      (h.deeds_begin h' hcontinues hq hb) hcommitted⟩

theorem committedFor_lasts (h : Records routing policy c s) (h' : Records routing policy c' s')
    (hcontinues : Chronicle.Continues routing policy c c') (hcommitted : s.CommittedFor a tid txn) :
    s'.CommittedFor a tid txn := by
  obtain ⟨k, b, hk, hb, hcommitted⟩ := hcommitted
  obtain ⟨hprepare, hcommit⟩ := (Books.committed_iff_shows (h.distinct_leading hb)).1 hcommitted
  obtain ⟨r, hr, rfl, _⟩ := h.leading hb
  rw [h.table] at hk
  exact h.committedFor h' hcontinues hk hr hr hprepare hcommit

/-- Whatever counts as committed was asked to be, and before that to be prepared. -/
theorem asked_of_committedFor (h : Records routing policy c s)
    (hcommitted : s.CommittedFor a tid txn) :
    (∃ site, (site, .prepare tid txn) ∈ c.asked) ∧ ∃ site, (site, .commit tid) ∈ c.asked := by
  obtain ⟨k, b, _, hb, hcommitted⟩ := hcommitted
  obtain ⟨hprepare, hcommit⟩ := (Books.committed_iff_shows (h.distinct_leading hb)).1 hcommitted
  obtain ⟨r, _, rfl, _⟩ := h.leading hb
  have htraced := (h.history k).traced r
  constructor
  · obtain ⟨i, x, hi, hcommand, _⟩ :=
      Books.exists_of_preparedIn (htraced.shows_prepare_iff.1 hprepare)
    obtain ⟨site, hasked⟩ := h.asked_of_applied hi
    rw [hcommand] at hasked
    exact ⟨site, hasked⟩
  · obtain ⟨x, hx, hdeed⟩ := List.mem_map.1 (htraced.shows_commit_iff.1 hcommit)
    obtain ⟨i, hi⟩ := List.mem_iff_getElem?.1 hx
    obtain ⟨site, hasked⟩ := h.asked_of_applied hi
    rw [(Prod.mk.inj hdeed).1] at hasked
    exact ⟨site, hasked⟩

/-- A transfer that nobody asked to prepare, or nobody to commit, is committed nowhere. -/
theorem even_of_unasked (h' : Records routing policy c' s')
    (hnever : (∀ p ∈ c'.asked, p.2 ≠ .prepare tid txn) ∨ ∀ p ∈ c'.asked, p.2 ≠ .commit tid) :
    s.Even s' tid txn := by
  have hnowhere : ∀ a, ¬ s'.CommittedFor a tid txn := by
    intro a hcommitted
    obtain ⟨⟨site, hprepare⟩, site', hcommit⟩ := h'.asked_of_committedFor hcommitted
    rcases hnever with hnever | hnever
    · exact hnever _ hprepare rfl
    · exact hnever _ hcommit rfl
  exact iff_of_false (fun hsender => hnowhere _ hsender.1) fun hreceiver => hnowhere _ hreceiver.1

/-! ### The sum of all balances -/

/-- What a shard holds at first, if it is served at all. -/
def openingSum (routing : RoutingTable) (balance : Amount) (k : ShardId) : Nat :=
  if routing.group k = [] then 0 else (Ledger.opening (routing.accounts k) balance).sum

theorem accounted (h : Records routing policy c s) (table : routing.Partitioned) :
    Books.Accounted routing (openingSum routing policy.initialBalance) s.countedBooks := by
  constructor
  case distinct =>
    intro k
    unfold countedBooks
    cases hb : s.leadingBooks? k with
    | none => exact List.nodup_nil
    | some b => exact h.distinct_leading hb
  case sum_eq =>
    intro k
    unfold countedBooks openingSum
    cases hb : s.leadingBooks? k with
    | none =>
        have hempty : routing.group k = [] := by
          refine List.eq_nil_iff_forall_not_mem.2 fun r hr => ?_
          obtain ⟨b, hsome⟩ := h.exists_leading hr
          rw [hb] at hsome
          cases hsome
        rw [if_pos hempty]
        rfl
    | some b =>
        obtain ⟨r, hr, _⟩ := h.leading hb
        obtain ⟨r, entries, happly⟩ := h.exists_applyAll hb
        rw [if_neg (List.ne_nil_of_mem hr)]
        have hsum := Books.sum_ledger_applyAll (t := ⟨r, k, routing⟩) table happly
        simpa [Topology.owns, Books.opening] using hsum

theorem mem_halves_iff (h : Records routing policy c s) (table : routing.Partitioned) :
    (tid, txn) ∈ Books.halves routing s.countedBooks side ↔ s.CommittedFor (side txn) tid txn := by
  rw [Books.mem_halves_iff table]
  unfold CommittedFor countedBooks
  rw [h.table]
  refine exists_congr fun k => ?_
  cases s.leadingBooks? k with
  | none => simp [Books.Committed]
  | some b => simp

/-- The sum of all balances stays the same while no transfer is committed on one side only. -/
theorem totalBalance_eq (h : Records routing policy c s) (h' : Records routing policy c' s')
    (hcontinues : Chronicle.Continues routing policy c c') (table : routing.Partitioned)
    (even : ∀ tid txn, s.Even s' tid txn) : s'.totalBalance = s.totalBalance := by
  refine totalBalance_congr ?_
  unfold holdings
  rw [h.table, h'.table]
  refine (h.accounted table).sum_of_even (h'.accounted table) (fun side p hp => ?_) fun p => ?_
  · rw [← Prod.mk.eta (p := p), h'.mem_halves_iff table]
    exact h.committedFor_lasts h' hcontinues ((h.mem_halves_iff table).1 hp)
  · obtain ⟨tid, txn⟩ := p
    simp only [h.mem_halves_iff table, h'.mem_halves_iff table]
    exact even tid txn

end Records

end Records

end Simulation

end ReplicatedLedger
