import ReplicatedLedger.Proofs.Books.Reservations

/-!
How often a transaction id is opened on a shard, by a transfer within the shard or by a prepared one
across shards.
-/

namespace ReplicatedLedger

/-- Whether an entry with this outcome is the first to take up its transaction. -/
def Outcome.opens : Outcome → Bool
  | transferred | prepared => true
  | _ => false

theorem Outcome.opens_of_idle {outcome : Outcome} (h : outcome.isEffective = false) :
    outcome.opens = false := by
  cases outcome with
  | duplicate => rfl
  | rejected reason => rfl
  | _ => cases h

namespace Books

variable {b b' m : Books} {tid : Tid} {e : LogEntry} {outcome : Outcome}
  {entries : List LogEntry} {t : Topology} {balance : Amount}

/-- The outcomes by which a transaction id was opened, in the order of the trail. -/
def openings (b : Books) (tid : Tid) : List Outcome :=
  ((b.applied.filter (·.entry.command.tid = tid)).map (·.outcome)).filter (·.opens)

/-- What the two tables say of the openings of an id. -/
def tabled (b : Books) (tid : Tid) : List Outcome :=
  (if (b.transfers.get? tid).isSome then [.transferred] else []) ++
    if (b.participants.find? tid).isSome then [.prepared] else []

theorem openings_append (happlied : b'.applied = b.applied ++ [⟨e, outcome⟩]) (tid : Tid) :
    b'.openings tid = b.openings tid ++
      if e.command.tid = tid ∧ outcome.opens = true then [outcome] else [] := by
  unfold openings
  rw [happlied, List.filter_append, List.map_append, List.filter_append]
  by_cases htid : e.command.tid = tid <;> by_cases hopens : outcome.opens = true <;>
    simp [htid, hopens]

theorem isSome_find?_decide (p : Participants) (tid tid' : Tid) (state : ParticipantState) :
    ((p.decide tid state).find? tid').isSome = (p.find? tid').isSome := by
  have hnone : (p.decide tid state).find? tid' = none ↔ p.find? tid' = none := by
    rw [Participants.find?_eq_none_iff, Participants.find?_eq_none_iff, Participants.tids_decide]
  rw [Bool.eq_iff_iff, Option.isSome_iff_ne_none, Option.isSome_iff_ne_none]
  exact not_congr hnone

theorem find?_append (p : Participants) (r : ParticipantRecord) (tid : Tid) :
    (Participants.mk (p.records ++ [r])).find? tid =
      (p.find? tid).or (if r.tid = tid then some r else none) := by
  unfold Participants.find?
  rw [List.find?_append]
  by_cases htid : r.tid = tid <;> simp [htid]

/-- A table entry is made by the entry that opens its id, and by no other. -/
theorem Effect.tabled (h : b.Effect e.command m outcome) (tid : Tid) :
    m.tabled tid = b.tabled tid ++
      if e.command.tid = tid ∧ outcome.opens = true then [outcome] else [] := by
  generalize hc : e.command = c at h ⊢
  cases h with
  | none idle => simp [Outcome.opens_of_idle idle]
  | @transferred tid' txn debited unused unprepared sender receiver funded room debit =>
      unfold Books.tabled
      dsimp only
      rw [SortedMap.get?_insert]
      by_cases htid : tid = tid'
      · subst htid
        simp [unused, unprepared, Command.tid, Outcome.opens]
      · simp [htid, Ne.symm htid, Command.tid]
  | @prepared tid' txn unused admitted =>
      unfold Books.tabled
      dsimp only
      rw [find?_append]
      by_cases htid : tid' = tid
      · subst htid
        simp [unused, Command.tid, Outcome.opens]
      · simp [htid, Command.tid]
  | committed found pending room debit =>
      unfold Books.tabled
      dsimp only
      rw [isSome_find?_decide]
      simp [Outcome.opens]
  | aborted found pending =>
      unfold Books.tabled
      dsimp only
      rw [isSome_find?_decide]
      simp [Outcome.opens]

theorem openings_eq_tabled (h : (opening t balance).applyAll entries = .ok b) (tid : Tid) :
    b.openings tid = b.tabled tid := by
  refine applyAll_induction (P := fun b => b.openings tid = b.tabled tid) h rfl ?_
  intro b e b' outcome hb happly
  obtain ⟨m, heffect, _, rfl⟩ := apply_eq_ok happly
  rw [openings_append rfl, hb]
  exact (heffect.tabled tid).symm

/-- A transaction id is opened at most once, except that it may be prepared after it was
transferred; exactly then it is in both tables. -/
theorem shared_tid_iff (t : Topology) (balance : Amount) (entries : List LogEntry) :
    ∃ b, (opening t balance).applyAll entries = .ok b ∧ ∀ tid,
      (b.transfers.contains tid = true ∧ (b.participants.find? tid).isSome = true ↔
        b.openings tid = [.transferred, .prepared]) ∧
      ((b.openings tid).length ≤ 1 ∨ b.openings tid = [.transferred, .prepared]) := by
  obtain ⟨b, happly⟩ := (covered_opening t balance).exists_applyAll entries
  refine ⟨b, happly, fun tid => ?_⟩
  rw [openings_eq_tabled happly]
  unfold tabled SortedMap.contains
  cases (b.transfers.get? tid).isSome <;> cases (b.participants.find? tid).isSome <;> simp

/-- Nothing keeps an id that was transferred within the shard from being prepared. -/
theorem transferred_then_prepared : ∃ b,
    (opening fourAccounts 10).applyAll [⟨⟨0⟩, .zero, .transfer ⟨1⟩ ⟨⟨1⟩, ⟨2⟩, 3⟩⟩,
        ⟨⟨1⟩, .zero, .prepare ⟨1⟩ ⟨⟨1⟩, ⟨2⟩, 3⟩⟩] = .ok b ∧
      b.transfers.contains ⟨1⟩ = true ∧ (b.participants.find? ⟨1⟩).isSome = true ∧
      b.applied.map (·.outcome) = [.transferred, .prepared] :=
  ⟨_, rfl, rfl, rfl, rfl⟩

end Books

end ReplicatedLedger
