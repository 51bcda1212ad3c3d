import ReplicatedLedger.Proofs.Books.Funding
import ReplicatedLedger.Proofs.Replica.Answers

/-!
What the check of a request foretells of its command, applied to the same books.  The check and the
entry follow the same rules, written twice.  The check leaves two things open: whether the receiver
has room, and whether a transaction that is not known here is known elsewhere.  And a prepare that
the check turns away, because its id was transferred, still takes effect as an entry.
-/

namespace ReplicatedLedger

/-- The outcome of a command that takes effect. -/
def Command.effect : Command → Outcome
  | transfer .. => .transferred
  | prepare .. => .prepared
  | commit _ => .committed
  | abort _ => .aborted

namespace Books

variable {b m : Books} {c : Command} {tid : Tid} {txn : Transaction} {outcome : Outcome}
  {verdict : Except LedgerError Admission} {a : AccountId}

/-! ### When a command is worth proposing -/

theorem requireOwned_eq_ok_iff : b.requireOwned a = .ok () ↔ b.topology.owns a = true := by
  unfold requireOwned
  split
  · next howns => simp [howns]
  · next howns => simp [howns]

theorem checkFunds_eq_propose_iff : b.checkFunds tid txn = .ok (.ok .propose) ↔
    b.participants.fundingShortfall? b.ledger tid txn = .ok none := by
  unfold checkFunds
  rw [bind_eq_ok_iff]
  constructor
  · rintro ⟨_ | reason, hfunds, h⟩
    · exact hfunds
    · cases h
  · exact fun hfunds => ⟨none, hfunds, rfl⟩

theorem checkTransfer_eq_propose_iff : b.checkTransfer tid txn = .ok (.ok .propose) ↔
    b.topology.owns txn.sender = true ∧ b.topology.owns txn.receiver = true ∧
      b.transfers.get? tid = none ∧ b.participants.find? tid = none ∧
      b.participants.fundingShortfall? b.ledger tid txn = .ok none := by
  have howned : (do b.requireOwned txn.sender; b.requireOwned txn.receiver) = .ok () ↔
      b.topology.owns txn.sender = true ∧ b.topology.owns txn.receiver = true := by
    rw [bind_eq_ok_iff, ← requireOwned_eq_ok_iff, ← requireOwned_eq_ok_iff]
    exact ⟨fun ⟨_, h⟩ => h, fun h => ⟨⟨⟩, h⟩⟩
  rw [← and_assoc, ← howned]
  unfold checkTransfer
  split
  · next reason hforeign => simp [hforeign]
  · next hboth =>
    rw [hboth]
    split
    · next known hknown => split <;> simp [hknown]
    · next unused =>
      split
      · next hrecord => simp [Option.isSome_iff_ne_none.1 hrecord]
      · next unprepared =>
        rw [checkFunds_eq_propose_iff]
        simp [unused, Option.not_isSome_iff_eq_none.1 unprepared]

theorem checkPrepare_eq_propose_iff : b.checkPrepare tid txn = .ok (.ok .propose) ↔
    (b.topology.owns txn.sender = true ∨ b.topology.owns txn.receiver = true) ∧
      b.transfers.get? tid = none ∧ b.participants.find? tid = none ∧
      (b.topology.owns txn.sender = true →
        b.participants.fundingShortfall? b.ledger tid txn = .ok none) := by
  unfold checkPrepare
  split
  · next hforeign =>
    rw [Bool.and_eq_true, Bool.not_eq_true', Bool.not_eq_true'] at hforeign
    simp [hforeign.1, hforeign.2]
  · next howned =>
    have howned : b.topology.owns txn.sender = true ∨ b.topology.owns txn.receiver = true := by
      revert howned
      cases b.topology.owns txn.sender <;> simp
    split
    · next hused =>
      obtain ⟨known, hknown⟩ := SortedMap.contains_eq_true_iff.1 hused
      simp [hknown]
    · next unused =>
      rw [Bool.not_eq_true, SortedMap.contains_eq_false_iff] at unused
      split
      · next r found =>
        split
        · split <;> simp [found]
        · simp [found]
      · next unprepared =>
        split
        · next hsender =>
          rw [checkFunds_eq_propose_iff]
          simp [unused, unprepared, hsender]
        · next hsender => simp [howned.resolve_left hsender, unused, unprepared, hsender]

theorem checkCommit_eq_propose_iff : b.checkCommit tid = .ok .propose ↔
    b.participants.state? tid = some .prepared ∨ b.participants.find? tid = none := by
  rw [← Option.map_eq_none_iff (f := (·.state))]
  show _ ↔ _ ∨ b.participants.state? tid = none
  unfold checkCommit
  split <;> simp [*]

theorem checkAbort_eq_propose_iff : b.checkAbort tid = .ok .propose ↔
    b.participants.state? tid = some .prepared := by
  unfold checkAbort
  split <;> simp [*]

/-! ### From the entry back to the check -/

/-- Whether a command prepares an id that was transferred. -/
def Reuses (b : Books) (c : Command) : Prop :=
  ∃ tid txn known, c = .prepare tid txn ∧ b.transfers.get? tid = some known

/-- What takes effect was worth proposing, unless it prepares an id that was transferred. -/
theorem admission_of_effect (h : b.Effect c m outcome) (effective : outcome.isEffective = true) :
    b.admission c = .ok (.ok .propose) ∨ b.Reuses c := by
  cases h with
  | none idle =>
      rw [idle] at effective
      cases effective
  | transferred unused unprepared sender receiver funded room debit =>
      exact .inl (checkTransfer_eq_propose_iff.2 ⟨sender, receiver, unused, unprepared, funded⟩)
  | @prepared tid txn unused admitted =>
      obtain ⟨howned, _, hfunded⟩ := Participants.prepareRejection?_eq_none_iff.1 admitted
      cases htransfer : b.transfers.get? tid with
      | some known => exact .inr ⟨tid, txn, known, rfl, htransfer⟩
      | none => exact .inl (checkPrepare_eq_propose_iff.2 ⟨howned, htransfer, unused, hfunded⟩)
  | committed found pending room debit =>
      refine .inl (congrArg Except.ok (checkCommit_eq_propose_iff.2 (.inl ?_)))
      rw [Participants.state?_of_find? found, pending]
  | aborted found pending =>
      refine .inl (congrArg Except.ok (checkAbort_eq_propose_iff.2 ?_))
      rw [Participants.state?_of_find? found, pending]

/-! ### From the check to the entry -/

/-- What is settled is repeated by its command. -/
theorem perform_of_settled (h : b.admission c = .ok (.ok .settled)) :
    b.perform c = .ok (b, .duplicate) := by
  cases c with
  | transfer tid txn =>
      have hknown := checkTransfer_eq_settled h
      show b.transfer tid txn = _
      unfold transfer
      rw [hknown]
      simp
  | prepare tid txn =>
      obtain ⟨r, found, rfl, _⟩ := checkPrepare_eq_settled h
      unfold perform Participants.prepare
      dsimp only
      rw [found]
      simp
  | commit tid =>
      have hcommitted := checkCommit_eq_settled (Except.ok.inj h)
      obtain ⟨r, found, hstate⟩ := Option.map_eq_some_iff.1 hcommitted
      unfold perform Participants.commit
      simp only [found, hstate]
  | abort tid =>
      unfold perform Participants.abort
      rcases checkAbort_eq_settled (Except.ok.inj h) with hnone | haborted
      · simp only [hnone]
      · obtain ⟨r, found, hstate⟩ := Option.map_eq_some_iff.1 haborted
        simp only [found, hstate]

/-- Once it is known to be funded, a transfer is refused only for want of room. -/
theorem transferRejection?_of_funded (unprepared : b.participants.find? tid = none)
    (sender : b.topology.owns txn.sender = true) (receiver : b.topology.owns txn.receiver = true)
    (funded : b.participants.fundingShortfall? b.ledger tid txn = .ok none) :
    b.transferRejection? tid txn = .ok (b.participants.creditOverflow? b.ledger tid txn) := by
  unfold transferRejection?
  rw [unprepared, sender, receiver, funded]
  rfl

theorem prepareRejection?_of_funded {p : Participants} {t : Topology} {l : Ledger}
    (owned : t.owns txn.sender = true ∨ t.owns txn.receiver = true)
    (funded : t.owns txn.sender = true → p.fundingShortfall? l tid txn = .ok none) :
    p.prepareRejection? t l tid txn =
      .ok (if t.owns txn.receiver then p.creditOverflow? l tid txn else none) := by
  unfold Participants.prepareRejection?
  rw [if_neg (by rcases owned with h | h <;> simp [h])]
  cases (if t.owns txn.receiver then p.creditOverflow? l tid txn else none) with
  | some reason => rfl
  | none =>
      by_cases hsender : t.owns txn.sender = true
      · exact (if_pos hsender).trans (funded hsender)
      · exact if_neg hsender

/-- What may become of a command that was worth proposing: it takes effect, or the receiver has no
room, or it commits what nobody has prepared. -/
inductive Expects (b : Books) : Command → Outcome → Prop
  | effective {c : Command} : Expects b c c.effect
  | noRoom {c : Command} {a : AccountId} (credits : ∀ tid, c ≠ .abort tid) :
      Expects b c (.rejected (.balanceOverflow a))
  | unknown {tid : Tid} (unprepared : b.participants.find? tid = none) :
      Expects b (.commit tid) (.rejected .unknownTransaction)

theorem Expects.of_overflow {reason : Rejection}
    (hroom : b.participants.creditOverflow? b.ledger tid txn = some reason)
    (credits : ∀ tid, c ≠ .abort tid) : b.Expects c (.rejected reason) := by
  rw [Participants.creditOverflow?_eq_some hroom]
  exact .noRoom credits

theorem expects_transfer (hcheck : b.checkTransfer tid txn = .ok (.ok .propose))
    (hperform : b.transfer tid txn = .ok (m, outcome)) : b.Expects (.transfer tid txn) outcome := by
  obtain ⟨sender, receiver, unused, unprepared, funded⟩ := checkTransfer_eq_propose_iff.1 hcheck
  have hrejection := transferRejection?_of_funded unprepared sender receiver funded
  unfold transfer at hperform
  rw [unused, hrejection] at hperform
  cases hroom : b.participants.creditOverflow? b.ledger tid txn with
  | some reason =>
      rw [hroom] at hperform
      cases hperform
      exact .of_overflow hroom (by simp)
  | none =>
      rw [hroom] at hrejection hperform
      obtain ⟨debited, hdebit⟩ := exists_debit_of_admitted hrejection
      simp only [hdebit] at hperform
      cases hperform
      exact .effective

theorem expects_prepare (hcheck : b.checkPrepare tid txn = .ok (.ok .propose))
    (hperform : b.perform (.prepare tid txn) = .ok (m, outcome)) :
    b.Expects (.prepare tid txn) outcome := by
  obtain ⟨owned, _, unused, funded⟩ := checkPrepare_eq_propose_iff.1 hcheck
  obtain ⟨⟨participants, outcome'⟩, hprepare, hperform⟩ := bind_eq_ok_iff.1 hperform
  cases hperform
  unfold Participants.prepare at hprepare
  rw [unused, prepareRejection?_of_funded owned funded] at hprepare
  cases hroom : (if b.topology.owns txn.receiver then
      b.participants.creditOverflow? b.ledger tid txn else none) with
  | some reason =>
      rw [hroom] at hprepare
      cases hprepare
      exact .of_overflow (Option.ite_none_right_eq_some.1 hroom).2 (by simp)
  | none =>
      rw [hroom] at hprepare
      cases hprepare
      exact .effective

theorem expects_commit (h : b.Covered) (hcheck : b.checkCommit tid = .ok .propose)
    (hperform : b.perform (.commit tid) = .ok (m, outcome)) : b.Expects (.commit tid) outcome := by
  unfold perform Participants.commit at hperform
  rcases checkCommit_eq_propose_iff.1 hcheck with hstate | unknown
  · obtain ⟨r, found, pending⟩ := Option.map_eq_some_iff.1 hstate
    -- what the record holds back is still there
    obtain ⟨debited, hdebit⟩ := h.exists_debit_of_pending found pending
    simp only [found, pending] at hperform
    cases hroom : (if b.topology.owns r.txn.receiver then
        b.participants.creditOverflow? b.ledger tid r.txn else none) with
    | some reason =>
        simp only [hroom] at hperform
        cases hperform
        exact .of_overflow (Option.ite_none_right_eq_some.1 hroom).2 (by simp)
    | none =>
        simp only [hroom, hdebit] at hperform
        cases hperform
        exact .effective
  · simp only [unknown] at hperform
    cases hperform
    exact .unknown unknown

theorem expects_abort (hcheck : b.checkAbort tid = .ok .propose)
    (hperform : b.perform (.abort tid) = .ok (m, outcome)) : b.Expects (.abort tid) outcome := by
  obtain ⟨r, found, pending⟩ := Option.map_eq_some_iff.1 (checkAbort_eq_propose_iff.1 hcheck)
  unfold perform Participants.abort at hperform
  simp only [found, pending] at hperform
  cases hperform
  exact .effective

theorem expects_of_proposed (h : b.Covered) (hcheck : b.admission c = .ok (.ok .propose))
    (hperform : b.perform c = .ok (m, outcome)) : b.Expects c outcome := by
  cases c with
  | transfer tid txn => exact expects_transfer hcheck hperform
  | prepare tid txn => exact expects_prepare hcheck hperform
  | commit tid => exact expects_commit h (Except.ok.inj hcheck) hperform
  | abort tid => exact expects_abort (Except.ok.inj hcheck) hperform

/-! ### The check of every command -/

namespace Covered

theorem exists_checkFunds (h : b.Covered) (unused : b.participants.find? tid = none)
    (howns : b.topology.owns txn.sender = true) :
    ∃ verdict, b.checkFunds tid txn = .ok verdict := by
  obtain ⟨shortfall, hfunds⟩ := h.exists_shortfall unused howns
  unfold checkFunds
  rw [hfunds]
  cases shortfall with
  | some reason => exact ⟨_, rfl⟩
  | none => exact ⟨_, rfl⟩

theorem exists_admission (h : b.Covered) (c : Command) :
    ∃ verdict, b.admission c = .ok verdict := by
  cases c with
  | transfer tid txn =>
      unfold admission checkTransfer
      dsimp only
      split
      · exact ⟨_, rfl⟩
      · next howned =>
        obtain ⟨_, hsender, _⟩ := bind_eq_ok_iff.1 howned
        split
        · exact ⟨_, rfl⟩
        · split
          · exact ⟨_, rfl⟩
          · next unused =>
            exact h.exists_checkFunds (by simpa using unused) (requireOwned_eq_ok_iff.1 hsender)
  | prepare tid txn =>
      unfold admission checkPrepare
      dsimp only
      split
      · exact ⟨_, rfl⟩
      · split
        · exact ⟨_, rfl⟩
        · split
          · split <;> exact ⟨_, rfl⟩
          · next unused =>
            split
            · next hsender => exact h.exists_checkFunds unused hsender
            · exact ⟨_, rfl⟩
  | commit tid => exact ⟨_, rfl⟩
  | abort tid => exact ⟨_, rfl⟩

end Covered

/-- That the outcome of a command is one that its check foretells. -/
structure Foretells (b : Books) (c : Command) (verdict : Except LedgerError Admission)
    (outcome : Outcome) : Prop where
  settled : verdict = .ok .settled → outcome = .duplicate
  proposed : verdict = .ok .propose → b.Expects c outcome
  refused : ∀ reason, verdict = .error reason → outcome.isEffective = true → b.Reuses c

theorem Covered.foretells (h : b.Covered) (hcheck : b.admission c = .ok verdict)
    (hperform : b.perform c = .ok (m, outcome)) : b.Foretells c verdict outcome where
  settled hverdict := by
    subst hverdict
    rw [perform_of_settled hcheck] at hperform
    cases hperform
    rfl
  proposed hverdict := by
    subst hverdict
    exact expects_of_proposed h hcheck hperform
  refused reason hverdict effective := by
    subst hverdict
    refine (admission_of_effect (perform_effect hperform) effective).resolve_left fun hpropose => ?_
    rw [hcheck] at hpropose
    cases hpropose

/-- Whatever entries were applied, every command has a verdict and, applied to the same books, an
outcome that the verdict foretells.  What is settled is a duplicate.  What is worth proposing takes
effect, unless the receiver has no room or the transaction of a commit is not known.  What is
refused does not take effect, unless it prepares an id that was transferred. -/
theorem admission_foretells (t : Topology) (balance : Amount) (entries : List LogEntry) :
    ∃ b, (opening t balance).applyAll entries = .ok b ∧ ∀ e, ∃ verdict b' outcome,
      b.admission e.command = .ok verdict ∧ b.apply e = .ok (b', outcome) ∧
        b.Foretells e.command verdict outcome := by
  obtain ⟨b, happly⟩ := (covered_opening t balance).exists_applyAll entries
  have hcovered : b.Covered := (covered_opening t balance).applyAll happly
  refine ⟨b, happly, fun e => ?_⟩
  obtain ⟨verdict, hcheck⟩ := hcovered.exists_admission e.command
  obtain ⟨m, outcome, hperform⟩ := hcovered.exists_perform e.command
  exact ⟨verdict, _, outcome, hcheck, apply_of_perform hperform,
    hcovered.foretells hcheck hperform⟩

end Books

end ReplicatedLedger
