import ReplicatedLedger.Books.Basic
import ReplicatedLedger.Proofs.Result

/-!
What a command can do to the books: nothing at all, or one of four things.
-/

namespace ReplicatedLedger

namespace Participants

variable {p : Participants} {t : Topology} {l : Ledger} {tid : Tid} {txn : Transaction}

/-- Nothing speaks against preparing a transfer if each side that is kept here agrees. -/
theorem prepareRejection?_eq_none_iff :
    p.prepareRejection? t l tid txn = .ok none ↔
      (t.owns txn.sender = true ∨ t.owns txn.receiver = true) ∧
        (t.owns txn.receiver = true → p.creditOverflow? l tid txn = none) ∧
        (t.owns txn.sender = true → p.fundingShortfall? l tid txn = .ok none) := by
  unfold prepareRejection?
  cases t.owns txn.sender <;> cases t.owns txn.receiver <;>
    cases p.creditOverflow? l tid txn <;> simp

theorem commit_cases (p : Participants) (t : Topology) (l : Ledger) (tid : Tid) :
    (∃ outcome, outcome.isEffective = false ∧ p.commit t l tid = (p, l, outcome)) ∨
      ∃ r debited, p.find? tid = some r ∧ r.state = .prepared ∧
        (if t.owns r.txn.receiver then p.creditOverflow? l tid r.txn else none) = none ∧
        (if t.owns r.txn.sender then l.debit r.txn.sender r.txn.amount else .ok l) = .ok debited ∧
        p.commit t l tid = (p.decide tid .committed,
          if t.owns r.txn.receiver then debited.deposit r.txn.receiver r.txn.amount else debited,
          .committed) := by
  unfold commit
  split
  · exact .inl ⟨_, rfl, rfl⟩
  · next r found =>
    split
    · exact .inl ⟨_, rfl, rfl⟩
    · exact .inl ⟨_, rfl, rfl⟩
    · next pending =>
      split
      · exact .inl ⟨_, rfl, rfl⟩
      · next room =>
        split
        · exact .inl ⟨_, rfl, rfl⟩
        · next debited debit => exact .inr ⟨r, debited, found, pending, room, debit, rfl⟩

theorem abort_cases (p : Participants) (tid : Tid) :
    (∃ outcome, outcome.isEffective = false ∧ p.abort tid = (p, outcome)) ∨
      ∃ r, p.find? tid = some r ∧ r.state = .prepared ∧
        p.abort tid = (p.decide tid .aborted, .aborted) := by
  unfold abort
  split
  · exact .inl ⟨_, rfl, rfl⟩
  · next r found =>
    split
    · exact .inl ⟨_, rfl, rfl⟩
    · exact .inl ⟨_, rfl, rfl⟩
    · next pending => exact .inr ⟨r, found, pending, rfl⟩

end Participants

namespace Books

/-- What became of the books by a command, and under which conditions. -/
inductive Effect (b : Books) : Command → Books → Outcome → Prop
  | none {c : Command} {outcome : Outcome} (idle : outcome.isEffective = false) :
      Effect b c b outcome
  | transferred {tid : Tid} {txn : Transaction} {debited : Ledger}
      (unused : b.transfers.get? tid = .none) (unprepared : b.participants.find? tid = .none)
      (sender : b.topology.owns txn.sender = true) (receiver : b.topology.owns txn.receiver = true)
      (funded : b.participants.fundingShortfall? b.ledger tid txn = .ok .none)
      (room : b.participants.creditOverflow? b.ledger tid txn = .none)
      (debit : b.ledger.debit txn.sender txn.amount = .ok debited) :
      Effect b (.transfer tid txn)
        { b with
          ledger := debited.deposit txn.receiver txn.amount
          transfers := b.transfers.insert tid txn } .transferred
  | prepared {tid : Tid} {txn : Transaction} (unused : b.participants.find? tid = .none)
      (admitted : b.participants.prepareRejection? b.topology b.ledger tid txn = .ok .none) :
      Effect b (.prepare tid txn)
        { b with
          participants := ⟨b.participants.records ++
            [⟨tid, txn, .prepared, if b.topology.owns txn.sender then txn.amount else 0⟩]⟩ }
        .prepared
  | committed {tid : Tid} {r : ParticipantRecord} {debited : Ledger}
      (found : b.participants.find? tid = some r) (pending : r.state = .prepared)
      (room : (if b.topology.owns r.txn.receiver then
        b.participants.creditOverflow? b.ledger tid r.txn else .none) = .none)
      (debit : (if b.topology.owns r.txn.sender then
        b.ledger.debit r.txn.sender r.txn.amount else .ok b.ledger) = .ok debited) :
      Effect b (.commit tid)
        { b with
          participants := b.participants.decide tid .committed
          ledger := if b.topology.owns r.txn.receiver then
            debited.deposit r.txn.receiver r.txn.amount else debited } .committed
  | aborted {tid : Tid} {r : ParticipantRecord} (found : b.participants.find? tid = some r)
      (pending : r.state = .prepared) :
      Effect b (.abort tid) { b with participants := b.participants.decide tid .aborted } .aborted

variable {b b' : Books} {tid : Tid} {txn : Transaction} {c : Command} {e : LogEntry}
  {outcome : Outcome}

theorem transferRejection?_eq_none (h : b.transferRejection? tid txn = .ok none) :
    b.participants.find? tid = none ∧ b.topology.owns txn.sender = true ∧
      b.topology.owns txn.receiver = true ∧
      b.participants.fundingShortfall? b.ledger tid txn = .ok none ∧
      b.participants.creditOverflow? b.ledger tid txn = none := by
  unfold transferRejection? at h
  split at h
  · cases h
  · next hfind =>
    split at h
    · cases h
    · next hsender =>
      split at h
      · cases h
      · next hreceiver =>
        obtain ⟨shortfall, hfunds, h⟩ := bind_eq_ok_iff.1 h
        cases shortfall with
        | some reason => cases h
        | none =>
            rw [pure_eq_ok_iff] at h
            exact ⟨by simpa using hfind, by simpa using hsender, by simpa using hreceiver, hfunds,
              h⟩

theorem transfer_effect (h : b.transfer tid txn = .ok (b', outcome)) :
    b.Effect (.transfer tid txn) b' outcome := by
  unfold transfer at h
  split at h
  · cases h
    refine .none ?_
    split <;> rfl
  · next unused =>
    obtain ⟨rejection, hrejection, h⟩ := bind_eq_ok_iff.1 h
    cases rejection with
    | some reason =>
        cases h
        exact .none rfl
    | none =>
        obtain ⟨unprepared, sender, receiver, funded, room⟩ := transferRejection?_eq_none hrejection
        dsimp only at h
        split at h
        · cases h
          exact .none rfl
        · next debited debit =>
          cases h
          exact .transferred unused unprepared sender receiver funded room debit

theorem prepare_effect (h : b.perform (.prepare tid txn) = .ok (b', outcome)) :
    b.Effect (.prepare tid txn) b' outcome := by
  obtain ⟨⟨participants, outcome'⟩, hprepare, h⟩ := bind_eq_ok_iff.1 h
  cases h
  unfold Participants.prepare at hprepare
  split at hprepare
  · cases hprepare
    refine .none ?_
    split <;> rfl
  · next unused =>
    obtain ⟨rejection, admitted, hprepare⟩ := bind_eq_ok_iff.1 hprepare
    cases rejection with
    | some reason =>
        cases hprepare
        exact .none rfl
    | none =>
        cases hprepare
        exact .prepared unused admitted

theorem commit_effect (h : b.perform (.commit tid) = .ok (b', outcome)) :
    b.Effect (.commit tid) b' outcome := by
  unfold perform at h
  dsimp only at h
  rcases b.participants.commit_cases b.topology b.ledger tid with
    ⟨outcome', idle, hcommit⟩ | ⟨r, debited, found, pending, room, debit, hcommit⟩
  · rw [hcommit] at h
    cases h
    exact .none idle
  · rw [hcommit] at h
    cases h
    exact .committed found pending room debit

theorem abort_effect (h : b.perform (.abort tid) = .ok (b', outcome)) :
    b.Effect (.abort tid) b' outcome := by
  unfold perform at h
  dsimp only at h
  rcases b.participants.abort_cases tid with
    ⟨outcome', idle, habort⟩ | ⟨r, found, pending, habort⟩
  · rw [habort] at h
    cases h
    exact .none idle
  · rw [habort] at h
    cases h
    exact .aborted found pending

theorem perform_effect (h : b.perform c = .ok (b', outcome)) : b.Effect c b' outcome := by
  cases c with
  | transfer tid txn => exact transfer_effect h
  | prepare tid txn => exact prepare_effect h
  | commit tid => exact commit_effect h
  | abort tid => exact abort_effect h

theorem Effect.topology (h : b.Effect c b' outcome) : b'.topology = b.topology := by
  cases h <;> rfl

theorem Effect.applied (h : b.Effect c b' outcome) : b'.applied = b.applied := by
  cases h <;> rfl

theorem apply_of_perform (h : b.perform e.command = .ok (b', outcome)) :
    b.apply e = .ok ({ b' with applied := b'.applied ++ [⟨e, outcome⟩] }, outcome) := by
  unfold apply
  rw [h]
  rfl

/-- An entry does what its command does, and adds one line to the trail. -/
theorem apply_eq_ok (h : b.apply e = .ok (b', outcome)) :
    ∃ m, b.Effect e.command m outcome ∧ b.perform e.command = .ok (m, outcome) ∧
      b' = { m with applied := b.applied ++ [⟨e, outcome⟩] } := by
  obtain ⟨⟨m, outcome'⟩, hperform, h⟩ := bind_eq_ok_iff.1 h
  cases h
  have heffect := perform_effect hperform
  refine ⟨m, heffect, hperform, ?_⟩
  rw [heffect.applied]

end Books

end ReplicatedLedger
