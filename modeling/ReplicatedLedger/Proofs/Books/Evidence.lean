import ReplicatedLedger.Proofs.Books.Trail

/-!
What the books show of the commands in their trail.  Whatever took effect can be seen from then on,
and a commit is turned away as unknown only where no entry before it prepared the transaction.
-/

namespace ReplicatedLedger

namespace Participants

variable {p : Participants} {t : Topology} {l : Ledger} {tid tid' : Tid} {txn : Transaction}
  {reason : Rejection} {state : ParticipantState}

theorem shortfall_ne_unknown (h : p.fundingShortfall? l tid txn = .ok (some reason)) :
    reason ≠ .unknownTransaction := by
  obtain ⟨available, _, h⟩ := bind_eq_ok_iff.1 h
  rw [pure_eq_ok_iff] at h
  split at h
  · cases h
    exact Rejection.noConfusion
  · cases h

theorem creditOverflow_ne_unknown (h : p.creditOverflow? l tid txn = some reason) :
    reason ≠ .unknownTransaction := by
  unfold creditOverflow? at h
  split at h
  · cases h
  · split at h
    · cases h
      exact Rejection.noConfusion
    · split at h
      · cases h
        exact Rejection.noConfusion
      · cases h

theorem prepareRejection_ne_unknown (h : p.prepareRejection? t l tid txn = .ok (some reason)) :
    reason ≠ .unknownTransaction := by
  unfold prepareRejection? at h
  split at h
  · cases h
    exact Rejection.noConfusion
  · split at h
    · next overflow =>
      cases h
      split at overflow
      · exact creditOverflow_ne_unknown overflow
      · cases overflow
    · split at h
      · exact shortfall_ne_unknown h
      · cases h

theorem state?_of_find? {r : ParticipantRecord} (found : p.find? tid = some r) :
    p.state? tid = some r.state := by
  unfold state?
  rw [found, Option.map_some]

theorem state?_decide_self {r : ParticipantRecord} (found : p.find? tid = some r) :
    (p.decide tid state).state? tid = some state := by
  unfold state?
  rw [find?_decide, found]
  simp

theorem state?_decide_of_ne (h : tid' ≠ tid) :
    (p.decide tid state).state? tid' = p.state? tid' := by
  unfold state?
  rw [find?_decide]
  simp [h]

end Participants

namespace Books

variable {b b' m : Books} {c c' : Command} {tid : Tid} {txn : Transaction} {e : LogEntry}
  {outcome : Outcome} {entries : List LogEntry} {trail more : List AppliedEntry}
  {reason : Rejection}

/-- Whether the books show that a command took effect. -/
def Shows (b : Books) : Command → Prop
  | .transfer tid txn => b.transfers.get? tid = some txn
  | .prepare tid txn => ∃ r, b.participants.find? tid = some r ∧ r.txn = txn
  | .commit tid => b.participants.state? tid = some .committed
  | .abort tid => b.participants.state? tid = some .aborted

/-- The trail itself shows nothing. -/
theorem Shows.withTrail (h : b.Shows c) (trail : List AppliedEntry) :
    Shows { b with applied := trail } c := by
  cases c <;> exact h

/-! ### What lasts -/

/-- A decision is taken once, and changes no record but that of a pending transaction. -/
theorem Shows.decide {r : ParticipantRecord} {state : ParticipantState} {ledger : Ledger}
    (h : b.Shows c) (found : b.participants.find? tid = some r) (pending : r.state = .prepared) :
    Shows { b with participants := b.participants.decide tid state, ledger := ledger } c := by
  have hstate : ∀ {tid' state'}, state' ≠ .prepared → b.participants.state? tid' = some state' →
      (b.participants.decide tid state).state? tid' = some state' := by
    intro tid' state' hne h
    have htid : tid' ≠ tid := by
      rintro rfl
      rw [Participants.state?_of_find? found, pending] at h
      cases h
      exact hne rfl
    rw [Participants.state?_decide_of_ne htid]
    exact h
  cases c with
  | transfer tid' txn => exact h
  | prepare tid' txn =>
      obtain ⟨r', found', rfl⟩ := h
      refine ⟨if tid' = tid then { r' with state := state, reserved := 0 } else r', ?_, ?_⟩
      · show (b.participants.decide tid state).find? tid' = _
        rw [Participants.find?_decide, found', Option.map_some]
      · split <;> rfl
  | commit tid' => exact hstate (by simp) h
  | abort tid' => exact hstate (by simp) h

/-- What the books show they show from then on. -/
theorem Shows.effect (h : b.Shows c) (heffect : b.Effect c' m outcome) : m.Shows c := by
  cases heffect with
  | none idle => exact h
  | @transferred tid txn debited unused unprepared sender receiver funded room debit =>
      cases c with
      | transfer tid' txn' =>
          have hne : tid' ≠ tid := by
            rintro rfl
            have h : b.transfers.get? tid' = some txn' := h
            rw [unused] at h
            cases h
          show (b.transfers.insert tid txn).get? tid' = some txn'
          rw [SortedMap.get?_insert, if_neg hne]
          exact h
      | prepare tid' txn' => exact h
      | commit tid' => exact h
      | abort tid' => exact h
  | @prepared tid txn unused admitted =>
      have hfind : ∀ {tid' r}, b.participants.find? tid' = some r →
          (Participants.mk (b.participants.records ++ [⟨tid, txn, .prepared,
            if b.topology.owns txn.sender then txn.amount else 0⟩])).find? tid' = some r := by
        intro tid' r found
        rw [find?_append, found, Option.some_or]
      cases c with
      | transfer tid' txn' => exact h
      | prepare tid' txn' =>
          obtain ⟨r, found, htxn⟩ := h
          exact ⟨r, hfind found, htxn⟩
      | commit tid' =>
          obtain ⟨r, found, hstate⟩ := Option.map_eq_some_iff.1 h
          exact Option.map_eq_some_iff.2 ⟨r, hfind found, hstate⟩
      | abort tid' =>
          obtain ⟨r, found, hstate⟩ := Option.map_eq_some_iff.1 h
          exact Option.map_eq_some_iff.2 ⟨r, hfind found, hstate⟩
  | committed found pending room debit => exact h.decide found pending
  | aborted found pending => exact h.decide found pending

/-! ### What an entry shows -/

/-- A command that takes effect is shown at once. -/
theorem Effect.shows (h : b.Effect c m outcome) (effective : outcome.isEffective = true) :
    m.Shows c := by
  cases h with
  | none idle => rw [idle] at effective; cases effective
  | transferred unused unprepared sender receiver funded room debit =>
      exact SortedMap.get?_insert_self _ _ _
  | @prepared tid txn unused admitted =>
      refine ⟨⟨tid, txn, .prepared, if b.topology.owns txn.sender then txn.amount else 0⟩, ?_, rfl⟩
      show (Participants.mk (_ ++ [_])).find? _ = _
      rw [find?_append, unused, Option.none_or, if_pos rfl]
  | committed found pending room debit => exact Participants.state?_decide_self found
  | aborted found pending => exact Participants.state?_decide_self found

/-- A command that repeats one is shown already, unless it aborts what nobody knows. -/
theorem shows_of_duplicate (h : b.perform c = .ok (m, .duplicate)) :
    b.Shows c ∨ ∃ tid, c = .abort tid ∧ b.participants.find? tid = none := by
  have heffect := perform_effect h
  cases c with
  | transfer tid txn =>
      have h : b.transfer tid txn = .ok (m, .duplicate) := h
      unfold transfer at h
      split at h
      · next known hknown =>
        split at h
        · next htxn =>
          rw [htxn] at hknown
          exact .inl hknown
        · cases h
      · obtain ⟨rejection, _, h⟩ := bind_eq_ok_iff.1 h
        cases rejection with
        | some reason => cases h
        | none =>
            dsimp only at h
            split at h <;> cases h
  | prepare tid txn =>
      obtain ⟨⟨participants, outcome⟩, hprepare, h⟩ := bind_eq_ok_iff.1 h
      cases h
      unfold Participants.prepare at hprepare
      split at hprepare
      · next r found =>
        split at hprepare
        · next htxn => exact .inl ⟨r, found, htxn⟩
        · cases hprepare
      · obtain ⟨rejection, _, hprepare⟩ := bind_eq_ok_iff.1 hprepare
        cases rejection <;> cases hprepare
  | commit tid =>
      unfold perform Participants.commit at h
      dsimp only at h
      split at h
      · cases h
      · next r found =>
        split at h
        · next hstate =>
          refine .inl ?_
          show b.participants.state? tid = some .committed
          rw [Participants.state?_of_find? found, hstate]
        · cases h
        · split at h
          · cases h
          · split at h <;> cases h
  | abort tid =>
      unfold perform Participants.abort at h
      dsimp only at h
      split at h
      · next hnone => exact .inr ⟨tid, rfl, hnone⟩
      · next r found =>
        split at h
        · next hstate =>
          refine .inl ?_
          show b.participants.state? tid = some .aborted
          rw [Participants.state?_of_find? found, hstate]
        · cases h
        · cases h

/-- What is not rejected is shown, unless it aborts what nobody knows. -/
theorem shows_of_perform (h : b.perform c = .ok (m, outcome))
    (accepted : ∀ reason, outcome ≠ .rejected reason) :
    m.Shows c ∨ ∃ tid, c = .abort tid ∧ b.participants.find? tid = none := by
  have heffect := perform_effect h
  cases outcome with
  | duplicate => exact (shows_of_duplicate h).imp_left fun hshows => hshows.effect heffect
  | rejected reason => exact absurd rfl (accepted reason)
  | _ => exact .inl (heffect.shows rfl)

theorem transferRejection_ne_unknown (h : b.transferRejection? tid txn = .ok (some reason)) :
    reason ≠ .unknownTransaction := by
  unfold transferRejection? at h
  split at h
  · cases h
    exact Rejection.noConfusion
  · split at h
    · cases h
      exact Rejection.noConfusion
    · split at h
      · cases h
        exact Rejection.noConfusion
      · obtain ⟨shortfall, hfunds, h⟩ := bind_eq_ok_iff.1 h
        cases shortfall with
        | some reason' =>
            cases h
            exact Participants.shortfall_ne_unknown hfunds
        | none =>
            rw [pure_eq_ok_iff] at h
            exact Participants.creditOverflow_ne_unknown h

/-- Only the commit of a transaction without a record is turned away as unknown. -/
theorem commit_of_unknown (h : b.perform c = .ok (m, .rejected .unknownTransaction)) :
    ∃ tid, c = .commit tid ∧ b.participants.find? tid = none := by
  cases c with
  | transfer tid txn =>
      have h : b.transfer tid txn = .ok (m, .rejected .unknownTransaction) := h
      unfold transfer at h
      split at h
      · split at h <;> cases h
      · obtain ⟨rejection, hrejection, h⟩ := bind_eq_ok_iff.1 h
        cases rejection with
        | some reason =>
            cases h
            exact absurd rfl (transferRejection_ne_unknown hrejection)
        | none =>
            dsimp only at h
            split at h <;> cases h
  | prepare tid txn =>
      obtain ⟨⟨participants, outcome⟩, hprepare, h⟩ := bind_eq_ok_iff.1 h
      cases h
      unfold Participants.prepare at hprepare
      split at hprepare
      · split at hprepare <;> cases hprepare
      · obtain ⟨rejection, hrejection, hprepare⟩ := bind_eq_ok_iff.1 hprepare
        cases rejection with
        | some reason =>
            cases hprepare
            exact absurd rfl (Participants.prepareRejection_ne_unknown hrejection)
        | none => cases hprepare
  | commit tid =>
      unfold perform Participants.commit at h
      dsimp only at h
      split at h
      · next hnone => exact ⟨tid, rfl, hnone⟩
      · split at h
        · cases h
        · cases h
        · split at h
          · next reason overflow =>
            cases h
            split at overflow
            · exact absurd rfl (Participants.creditOverflow_ne_unknown overflow)
            · cases overflow
          · split at h <;> cases h
  | abort tid =>
      unfold perform Participants.abort at h
      dsimp only at h
      split at h
      · cases h
      · split at h <;> cases h

/-! ### Trails -/

/-- What stands in a trail stands at the same position of a longer one. -/
theorem getElem?_of_begins {i : Nat} {a : AppliedEntry} (ha : trail[i]? = some a)
    (hbegins : trail <+: more) : more[i]? = some a := by
  obtain ⟨hi, rfl⟩ := List.getElem?_eq_some_iff.1 ha
  exact List.prefix_iff_getElem?.1 hbegins i hi

/-- What a trail shows as prepared a longer one does, if it begins with the same deeds. -/
theorem preparedIn_of_deeds (h : preparedIn trail tid = some txn)
    (hbegins : trail.map (·.deed) <+: more.map (·.deed)) : preparedIn more tid = some txn := by
  have hdeeds : ∀ trail : List AppliedEntry, trail.filterMap (·.prepared?) =
      (trail.map (·.deed)).filterMap fun d => AppliedEntry.prepared? ⟨⟨.first, .zero, d.1⟩, d.2⟩ := by
    intro trail
    rw [List.filterMap_map]
    rfl
  obtain ⟨rest, hrest⟩ := hbegins
  unfold preparedIn at h ⊢
  rw [hdeeds] at h
  rw [hdeeds, ← hrest, List.filterMap_append, List.lookup_append, h, Option.some_or]

theorem preparedIn_of_begins (h : preparedIn trail tid = some txn) (hbegins : trail <+: more) :
    preparedIn more tid = some txn :=
  preparedIn_of_deeds h (hbegins.map _)

theorem Traced.shows_prepare_iff (h : b.Traced) :
    b.Shows (.prepare tid txn) ↔ preparedIn b.applied tid = some txn := by
  rw [h.opened, Option.map_eq_some_iff]
  exact Iff.rfl

theorem Traced.shows_commit_iff (h : b.Traced) :
    b.Shows (.commit tid) ↔ (.commit tid, .committed) ∈ b.applied.map (·.deed) := by
  refine (h.decided tid .committed (by simp)).trans ?_
  simp only [AppliedEntry.decided?_eq_committed_iff, List.mem_map, AppliedEntry.deed, Prod.mk.injEq]

/-- What books show of a transfer across shards, books with a longer trail of the same deeds do. -/
theorem Traced.shows_prepare_of_deeds (h : b.Traced) (h' : b'.Traced)
    (hbegins : b.applied.map (·.deed) <+: b'.applied.map (·.deed))
    (hshows : b.Shows (.prepare tid txn)) : b'.Shows (.prepare tid txn) :=
  h'.shows_prepare_iff.2 (preparedIn_of_deeds (h.shows_prepare_iff.1 hshows) hbegins)

theorem Traced.shows_commit_of_deeds (h : b.Traced) (h' : b'.Traced)
    (hbegins : b.applied.map (·.deed) <+: b'.applied.map (·.deed))
    (hshows : b.Shows (.commit tid)) : b'.Shows (.commit tid) :=
  h'.shows_commit_iff.2 (hbegins.subset (h.shows_commit_iff.1 hshows))

theorem preparedIn_ne_none {i : Nat} {a : AppliedEntry} (ha : trail[i]? = some a)
    (hcommand : a.entry.command = .prepare tid txn) (houtcome : a.outcome = .prepared) :
    preparedIn trail tid ≠ none := by
  have hmem : (tid, txn) ∈ trail.filterMap (·.prepared?) := by
    refine List.mem_filterMap.2 ⟨a, List.mem_of_getElem? ha, ?_⟩
    exact AppliedEntry.prepared?_eq_some_iff.2 ⟨hcommand, houtcome⟩
  intro hnone
  exact absurd (List.lookup_eq_none_iff.1 hnone _ hmem) (by simp)

/-- The books show every entry of their trail that was not rejected, and that which an entry found
unknown was not prepared before it. -/
structure Attested (b : Books) : Prop where
  traced : b.Traced
  shows : ∀ (i : Nat) (a : AppliedEntry), b.applied[i]? = some a →
    (∀ reason, a.outcome ≠ .rejected reason) → b.Shows a.entry.command ∨
      ∃ tid, a.entry.command = .abort tid ∧ preparedIn (b.applied.take i) tid = none
  unknown : ∀ (i : Nat) (a : AppliedEntry), b.applied[i]? = some a →
    a.outcome = .rejected .unknownTransaction →
      ∃ tid, a.entry.command = .commit tid ∧ preparedIn (b.applied.take i) tid = none

theorem attested_opening (t : Topology) (balance : Amount) : (opening t balance).Attested where
  traced := traced_opening t balance
  shows _ _ h := by cases h
  unknown _ _ h := by cases h

theorem Attested.apply (h : b.Attested) (happly : b.apply e = .ok (b', outcome)) :
    b'.Attested := by
  have htraced := h.traced.apply happly
  obtain ⟨m, heffect, hperform, rfl⟩ := apply_eq_ok happly
  -- an entry of the longer trail is an old one, or the new one behind all of the old trail
  have hcases : ∀ (i : Nat) (a : AppliedEntry), (b.applied ++ [AppliedEntry.mk e outcome])[i]? = some a →
      b.applied[i]? = some a ∧ (b.applied ++ [AppliedEntry.mk e outcome]).take i = b.applied.take i ∨
      a = ⟨e, outcome⟩ ∧ (b.applied ++ [AppliedEntry.mk e outcome]).take i = b.applied := by
    intro i a ha
    rcases Nat.lt_or_ge i b.applied.length with hlt | hge
    · rw [List.getElem?_append_left hlt] at ha
      exact .inl ⟨ha, List.take_append_of_le_length (Nat.le_of_lt hlt)⟩
    · rw [List.getElem?_append_right hge, List.getElem?_singleton] at ha
      split at ha
      · next hzero =>
        cases ha
        have hi : i = b.applied.length := by omega
        exact .inr ⟨rfl, by rw [hi, List.take_left]⟩
      · cases ha
  have hunopened : ∀ {tid}, b.participants.find? tid = none → preparedIn b.applied tid = none := by
    intro tid hnone
    rw [h.traced.opened, hnone, Option.map_none]
  constructor
  case traced => exact htraced
  case shows =>
    intro i a ha accepted
    rcases hcases i a ha with ⟨hold, htake⟩ | ⟨rfl, htake⟩
    · dsimp only
      rw [htake]
      refine (h.shows i a hold accepted).imp_left fun hshows => ?_
      exact (hshows.effect heffect).withTrail _
    · refine (shows_of_perform hperform accepted).imp (fun hshows => hshows.withTrail _) ?_
      rintro ⟨tid, hcommand, hnone⟩
      refine ⟨tid, hcommand, ?_⟩
      dsimp only
      rw [htake]
      exact hunopened hnone
  case unknown =>
    intro i a ha houtcome
    dsimp only
    rcases hcases i a ha with ⟨hold, htake⟩ | ⟨rfl, htake⟩
    · rw [htake]
      exact h.unknown i a hold houtcome
    · cases houtcome
      obtain ⟨tid, hcommand, hnone⟩ := commit_of_unknown hperform
      rw [htake]
      exact ⟨tid, hcommand, hunopened hnone⟩

theorem Attested.applyAll (h : b.Attested) (happly : b.applyAll entries = .ok b') : b'.Attested :=
  applyAll_induction happly h fun _ _ _ _ hm hstep => hm.apply hstep

end Books

end ReplicatedLedger
