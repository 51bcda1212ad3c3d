import ReplicatedLedger.Proofs.Books.Evidence

/-!
Entries that change nothing but the audit trail.  They are those that repeat an earlier entry and
those that are rejected, so a log may be cut down to the others: replayed on fresh books, these do
again what they did, and leave the same books.
-/

namespace ReplicatedLedger

theorem Outcome.isEffective_eq_false_iff {outcome : Outcome} : outcome.isEffective = false ↔
    outcome = .duplicate ∨ ∃ reason, outcome = .rejected reason := by
  cases outcome <;> simp [isEffective]

/-- A pending transaction is in no other state. -/
theorem Participants.state?_ne_of_pending {p : Participants} {tid : Tid} {r : ParticipantRecord}
    {state : ParticipantState} (found : p.find? tid = some r) (pending : r.state = .prepared)
    (hne : state ≠ .prepared) : p.state? tid ≠ some state := by
  rw [state?_of_find? found, pending, ne_eq, Option.some.injEq]
  exact Ne.symm hne

namespace Books

variable {b b' m : Books} {c : Command} {e : LogEntry} {outcome : Outcome}
  {entries : List LogEntry} {t : Topology} {balance : Amount}

/-! ### Entries that change nothing -/

theorem Effect.eq_of_idle (h : b.Effect c m outcome) (idle : outcome.isEffective = false) :
    m = b := by
  cases h with
  | none _ => rfl
  | _ => cases idle

/-- A command takes effect only on books that do not show it yet. -/
theorem Effect.not_shows (h : b.Effect c m outcome) (effective : outcome.isEffective = true) :
    ¬ b.Shows c := by
  cases h with
  | none idle =>
      rw [idle] at effective
      cases effective
  | @transferred tid txn debited unused unprepared sender receiver funded room debit =>
      intro hshows
      have hshows : b.transfers.get? tid = some txn := hshows
      rw [unused] at hshows
      cases hshows
  | prepared unused admitted =>
      rintro ⟨r, found, _⟩
      rw [unused] at found
      cases found
  | committed found pending room debit =>
      exact Participants.state?_ne_of_pending found pending (by simp)
  | aborted found pending => exact Participants.state?_ne_of_pending found pending (by simp)

theorem apply_of_idle (h : b.apply e = .ok (b', outcome)) (idle : outcome.isEffective = false) :
    b' = { b with applied := b.applied ++ [⟨e, outcome⟩] } := by
  obtain ⟨m, heffect, _, rfl⟩ := apply_eq_ok h
  rw [heffect.eq_of_idle idle]

/-- An entry only lengthens the trail if and only if its outcome says so. -/
theorem eq_withTrail_iff (h : b.apply e = .ok (b', outcome)) :
    b' = { b with applied := b.applied ++ [⟨e, outcome⟩] } ↔ outcome.isEffective = false := by
  refine ⟨fun hsame => ?_, apply_of_idle h⟩
  obtain ⟨m, heffect, _, rfl⟩ := apply_eq_ok h
  rw [← Bool.not_eq_true]
  intro effective
  -- the command is shown afterwards and was not before, so more than the trail has changed
  have hshows : Shows { b with applied := b.applied ++ [⟨e, outcome⟩] } e.command :=
    hsame ▸ (heffect.shows effective).withTrail _
  exact heffect.not_shows effective (hshows.withTrail b.applied)

/-! ### Leaving them out -/

/-- The lines of the trail that took effect. -/
def effective (b : Books) : List AppliedEntry := b.applied.filter (·.outcome.isEffective)

/-- The books as they would be without the entries that changed nothing. -/
def compacted (b : Books) : Books := { b with applied := b.effective }

theorem effective_append (happlied : b'.applied = b.applied ++ [⟨e, outcome⟩]) :
    b'.effective = b.effective ++ if outcome.isEffective then [⟨e, outcome⟩] else [] := by
  unfold effective
  rw [happlied, List.filter_append]
  cases heffective : outcome.isEffective <;> simp [heffective]

theorem compacted_of_idle (h : b.apply e = .ok (b', outcome))
    (idle : outcome.isEffective = false) : b'.compacted = b.compacted := by
  rw [apply_of_idle h idle]
  unfold compacted
  rw [effective_append rfl, idle]
  simp

/-- What takes effect takes the same effect on the compacted books. -/
theorem apply_compacted (h : b.apply e = .ok (b', outcome))
    (effective : outcome.isEffective = true) : b.compacted.apply e = .ok (b'.compacted, outcome) := by
  obtain ⟨m, heffect, hperform, rfl⟩ := apply_eq_ok h
  -- commands do not read the trail
  have hkept : b.compacted.perform e.command =
      .ok ({ m with applied := b.effective }, outcome) := by
    have hblind := perform_keptBy b b.topology.replica b.effective e.command
    rw [hperform] at hblind
    refine hblind.trans (congrArg (fun m => Except.ok (m, outcome)) ?_)
    unfold keptBy
    rw [← heffect.topology]
  have hlines : Books.effective { m with applied := b.applied ++ [⟨e, outcome⟩] } =
      b.effective ++ [⟨e, outcome⟩] := by
    rw [effective_append (b := b) rfl, if_pos effective]
  rw [apply_of_perform hkept]
  unfold compacted
  rw [hlines]

theorem applyAll_effective (h : (opening t balance).applyAll entries = .ok b) :
    (opening t balance).applyAll (b.effective.map (·.entry)) = .ok b.compacted := by
  refine applyAll_induction
    (P := fun b => (opening t balance).applyAll (b.effective.map (·.entry)) = .ok b.compacted)
    h rfl ?_
  intro m e m' outcome hm hstep
  have happlied : m'.applied = m.applied ++ [⟨e, outcome⟩] := by
    obtain ⟨_, _, _, rfl⟩ := apply_eq_ok hstep
    rfl
  rw [effective_append happlied]
  cases heffective : outcome.isEffective with
  | false =>
      rw [compacted_of_idle hstep heffective]
      simpa using hm
  | true =>
      rw [if_pos rfl, List.map_append, applyAll_append_eq_ok_iff]
      exact ⟨m.compacted, hm, applyAll_cons_eq_ok_iff.2
        ⟨m'.compacted, outcome, apply_compacted hstep heffective, rfl⟩⟩

/-- Whatever entries were applied, a further one lengthens the trail by one line and changes nothing
else if and only if it is a duplicate or is rejected.  The entries that took effect, replayed alone
on fresh books, have the same outcomes and bring about the same ledger, records and transfers. -/
theorem idle_entries_negligible (t : Topology) (balance : Amount) (entries : List LogEntry) :
    ∃ b, (opening t balance).applyAll entries = .ok b ∧
      (∀ e, ∃ b' outcome, b.apply e = .ok (b', outcome) ∧
        (b' = { b with applied := b.applied ++ [⟨e, outcome⟩] } ↔
          outcome = .duplicate ∨ ∃ reason, outcome = .rejected reason)) ∧
      ∃ b', (opening t balance).applyAll
          ((b.applied.filter (·.outcome.isEffective)).map (·.entry)) = .ok b' ∧
        b'.ledger = b.ledger ∧ b'.participants = b.participants ∧ b'.transfers = b.transfers ∧
        b'.applied = b.applied.filter (·.outcome.isEffective) := by
  obtain ⟨b, happly⟩ := (covered_opening t balance).exists_applyAll entries
  have hcovered : b.Covered := (covered_opening t balance).applyAll happly
  refine ⟨b, happly, fun e => ?_, b.compacted, applyAll_effective happly, rfl, rfl, rfl, rfl⟩
  obtain ⟨b', outcome, hstep⟩ := hcovered.exists_apply e
  exact ⟨b', outcome, hstep, (eq_withTrail_iff hstep).trans Outcome.isEffective_eq_false_iff⟩

end Books

end ReplicatedLedger
