import ReplicatedLedger.Proofs.Books.Openings

/-!
What the audit trail tells of the transfers across shards: the records are those that its entries
prepared, and each is decided as an entry decided it.
-/

namespace ReplicatedLedger

namespace AppliedEntry

variable {a : AppliedEntry} {tid : Tid} {txn : Transaction} {state : ParticipantState}

/-- The transfer that an entry prepared, with its id. -/
def prepared? (a : AppliedEntry) : Option (Tid × Transaction) :=
  match a.entry.command, a.outcome with
  | .prepare tid txn, .prepared => some (tid, txn)
  | _, _ => none

/-- The transfer that an entry decided, with the decision. -/
def decided? (a : AppliedEntry) : Option (Tid × ParticipantState) :=
  match a.entry.command, a.outcome with
  | .commit tid, .committed => some (tid, .committed)
  | .abort tid, .aborted => some (tid, .aborted)
  | _, _ => none

theorem prepared?_eq_some_iff :
    a.prepared? = some (tid, txn) ↔ a.entry.command = .prepare tid txn ∧ a.outcome = .prepared := by
  unfold prepared?
  split
  · next hcommand houtcome => simp [hcommand, houtcome]
  · next hother =>
    refine iff_of_false (by simp) fun h => hother tid txn h.1 h.2

theorem decided?_eq_committed_iff : a.decided? = some (tid, .committed) ↔
    a.entry.command = .commit tid ∧ a.outcome = .committed := by
  unfold decided?
  split
  · next hcommand houtcome => simp [hcommand, houtcome]
  · next hcommand houtcome => simp [hcommand]
  · next hother _ =>
    refine iff_of_false (by simp) fun h => hother tid h.1 h.2

theorem decided?_eq_aborted_iff : a.decided? = some (tid, .aborted) ↔
    a.entry.command = .abort tid ∧ a.outcome = .aborted := by
  unfold decided?
  split
  · next hcommand houtcome => simp [hcommand]
  · next hcommand houtcome => simp [hcommand, houtcome]
  · next _ hother =>
    refine iff_of_false (by simp) fun h => hother tid h.1 h.2

theorem decided?_ne_prepared (h : a.decided? = some (tid, state)) : state ≠ .prepared := by
  unfold decided? at h
  split at h
  · cases h; simp
  · cases h; simp
  · cases h

theorem prepared?_of_idle (h : a.outcome.isEffective = false) : a.prepared? = none := by
  unfold prepared?
  split
  · next houtcome => rw [houtcome] at h; cases h
  · rfl

theorem decided?_of_idle (h : a.outcome.isEffective = false) : a.decided? = none := by
  unfold decided?
  split
  · next houtcome => rw [houtcome] at h; cases h
  · next houtcome => rw [houtcome] at h; cases h
  · rfl

end AppliedEntry

namespace Participants

/-- A decision changes the record of its id alone. -/
theorem find?_decide (p : Participants) (tid tid' : Tid) (state : ParticipantState) :
    (p.decide tid state).find? tid' = (p.find? tid').map fun r =>
      if tid' = tid then { r with state := state, reserved := 0 } else r := by
  unfold find? decide
  dsimp only
  induction p.records with
  | nil => rfl
  | cons r records ih =>
      rw [List.map_cons, List.find?_cons, List.find?_cons, ih]
      by_cases hr : r.tid = tid
      · by_cases htid : tid = tid' <;> simp [hr, htid, eq_comm]
      · by_cases htid : r.tid = tid'
        · subst htid
          simp [hr]
        · simp [hr, htid]

end Participants

namespace Books

variable {b b' m : Books} {tid : Tid} {txn : Transaction} {e : LogEntry} {outcome : Outcome}
  {entries : List LogEntry} {t : Topology} {balance : Amount} {r : ParticipantRecord}
  {trail : List AppliedEntry} {x : AppliedEntry} {state : ParticipantState}

/-- The transfer that a trail shows as prepared under an id. -/
def preparedIn (trail : List AppliedEntry) (tid : Tid) : Option Transaction :=
  (trail.filterMap (·.prepared?)).lookup tid

theorem preparedIn_append (trail : List AppliedEntry) (x : AppliedEntry) (tid : Tid) :
    preparedIn (trail ++ [x]) tid =
      (preparedIn trail tid).or (x.prepared?.toList.lookup tid) := by
  unfold preparedIn
  rw [List.filterMap_append, List.lookup_append]
  cases hx : x.prepared? <;> simp [hx]

theorem exists_of_preparedIn (h : preparedIn trail tid = some txn) :
    ∃ (i : Nat) (a : AppliedEntry), trail[i]? = some a ∧ a.entry.command = .prepare tid txn ∧
      a.outcome = .prepared := by
  obtain ⟨_, _, hsplit, _⟩ := List.lookup_eq_some_iff.1 h
  have hmem : (tid, txn) ∈ trail.filterMap (·.prepared?) := by
    rw [hsplit]
    simp
  obtain ⟨a, ha, hprepared⟩ := List.mem_filterMap.1 hmem
  obtain ⟨i, hi⟩ := List.mem_iff_getElem?.1 ha
  exact ⟨i, a, hi, AppliedEntry.prepared?_eq_some_iff.1 hprepared⟩

/-- The records tell what the trail tells. -/
structure Traced (b : Books) : Prop where
  opened : ∀ tid, preparedIn b.applied tid = (b.participants.find? tid).map (·.txn)
  decided : ∀ tid state, state ≠ .prepared →
    (b.participants.state? tid = some state ↔ ∃ a ∈ b.applied, a.decided? = some (tid, state))

theorem traced_opening (t : Topology) (balance : Amount) : (opening t balance).Traced where
  opened _ := rfl
  decided _ _ _ := by simp [opening, Participants.state?, Participants.find?]

/-- An entry that decides nothing leaves the decisions as they are. -/
theorem exists_decided_append (hx : x.decided? = none) :
    (∃ a ∈ trail ++ [x], a.decided? = some (tid, state)) ↔
      ∃ a ∈ trail, a.decided? = some (tid, state) := by
  simp [or_and_right, exists_or, hx]

/-- A decision is noted in the record and in the trail. -/
theorem Traced.decide (h : b.Traced) (found : b.participants.find? tid = some r)
    (pending : r.state = .prepared)
    (hdecided : x.decided? = some (tid, state)) (hprepared : x.prepared? = none)
    (hparticipants : m.participants = b.participants.decide tid state)
    (happlied : m.applied = b.applied ++ [x]) : m.Traced where
  opened tid' := by
    rw [happlied, preparedIn_append, hprepared, hparticipants, Participants.find?_decide,
      h.opened tid']
    simp only [Option.toList_none, List.lookup_nil, Option.or_none, Option.map_map]
    refine Option.map_congr fun r _ => ?_
    show r.txn = (if tid' = tid then _ else r).txn
    split <;> rfl
  decided tid' state' hne := by
    rw [happlied, hparticipants]
    unfold Participants.state?
    rw [Participants.find?_decide]
    by_cases htid : tid' = tid
    · subst htid
      -- the record was pending, so no entry decided it before
      have hbefore : ¬ ∃ a ∈ b.applied, a.decided? = some (tid', state') := by
        rw [← h.decided tid' state' hne]
        unfold Participants.state?
        rw [found, Option.map_some, pending, Option.some.injEq]
        exact Ne.symm hne
      rw [found]
      simp only [List.mem_append, List.mem_singleton, or_and_right, exists_or, hbefore, false_or,
        exists_eq_left, hdecided]
      simp
    · have hafter : (∃ a ∈ b.applied ++ [x], a.decided? = some (tid', state')) ↔
          ∃ a ∈ b.applied, a.decided? = some (tid', state') := by
        simp only [List.mem_append, List.mem_singleton, or_and_right, exists_or, exists_eq_left,
          hdecided]
        simp [Ne.symm htid]
      rw [hafter, ← h.decided tid' state' hne]
      unfold Participants.state?
      simp [htid]

theorem Traced.effect (h : b.Traced) (heffect : b.Effect e.command m outcome) :
    Traced { m with applied := b.applied ++ [⟨e, outcome⟩] } := by
  generalize hc : e.command = c at heffect
  cases heffect with
  | none idle =>
      constructor
      · intro tid
        dsimp only
        rw [preparedIn_append, AppliedEntry.prepared?_of_idle idle, h.opened tid]
        simp
      · intro tid state hne
        rw [exists_decided_append (AppliedEntry.decided?_of_idle idle)]
        exact h.decided tid state hne
  | @transferred tid' txn debited unused unprepared sender receiver funded room debit =>
      constructor
      · intro tid
        dsimp only
        rw [preparedIn_append, h.opened tid]
        simp [AppliedEntry.prepared?, hc]
      · intro tid state hne
        rw [exists_decided_append (by simp [AppliedEntry.decided?, hc])]
        exact h.decided tid state hne
  | @prepared tid' txn unused admitted =>
      constructor
      · intro tid
        dsimp only
        rw [preparedIn_append, find?_append, h.opened tid, Option.map_or]
        by_cases htid : tid' = tid
        · simp [AppliedEntry.prepared?, hc, htid]
        · have hne : (tid == tid') = false := by simpa using Ne.symm htid
          simp [AppliedEntry.prepared?, hc, htid, List.lookup_cons, hne]
      · intro tid state hne
        rw [exists_decided_append (by simp [AppliedEntry.decided?, hc]), ← h.decided tid state hne]
        unfold Participants.state?
        dsimp only
        rw [find?_append, Option.map_or]
        by_cases htid : tid' = tid
        · subst htid
          simp [unused, Ne.symm hne]
        · simp [htid]
  | committed found pending room debit =>
      exact h.decide found pending (by simp [AppliedEntry.decided?, hc])
        (by simp [AppliedEntry.prepared?, hc]) rfl rfl
  | aborted found pending =>
      exact h.decide found pending (by simp [AppliedEntry.decided?, hc])
        (by simp [AppliedEntry.prepared?, hc]) rfl rfl

theorem Traced.apply (h : b.Traced) (happly : b.apply e = .ok (b', outcome)) : b'.Traced := by
  obtain ⟨m, heffect, _, rfl⟩ := apply_eq_ok happly
  exact h.effect heffect

theorem Traced.applyAll (h : b.Traced) (happly : b.applyAll entries = .ok b') : b'.Traced :=
  applyAll_induction happly h fun _ _ _ _ hm hstep => hm.apply hstep

/-- A transfer that the trail shows as prepared at a position, and decided nowhere. -/
structure Pends (b : Books) (tid : Tid) (txn : Transaction) (i : Nat) : Prop where
  prepared : ∃ a : AppliedEntry, b.applied[i]? = some a ∧ a.entry.command = .prepare tid txn ∧
    a.outcome = .prepared
  undecided : ∀ a ∈ b.applied, ∀ state, a.decided? ≠ some (tid, state)

/-- The entry that opened a record. -/
theorem Traced.exists_prepared (h : b.Traced) (found : b.participants.find? tid = some r) :
    ∃ (i : Nat) (a : AppliedEntry), b.applied[i]? = some a ∧
      a.entry.command = .prepare tid r.txn ∧ a.outcome = .prepared := by
  refine exists_of_preparedIn ?_
  rw [h.opened, found, Option.map_some]

theorem Traced.exists_pends (h : b.Traced) (found : b.participants.find? tid = some r)
    (pending : r.state = .prepared) : ∃ i, b.Pends tid r.txn i := by
  obtain ⟨i, hprepared⟩ := h.exists_prepared found
  refine ⟨i, hprepared, fun a ha state hdecided => ?_⟩
  have hstate : b.participants.state? tid = some .prepared := by
    unfold Participants.state?
    rw [found, Option.map_some, pending]
  have hne : state ≠ .prepared := AppliedEntry.decided?_ne_prepared hdecided
  have hother := (h.decided tid state hne).2 ⟨a, ha, hdecided⟩
  exact hne (Option.some.inj (hother.symm.trans hstate))

end Books

end ReplicatedLedger
