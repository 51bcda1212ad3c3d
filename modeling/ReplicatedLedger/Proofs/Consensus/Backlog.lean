import ReplicatedLedger.Proofs.Consensus.Proposing

/-!
Why a step comes to an end.  The backlog counts the proposals not completed and the slots on which
the own acceptor holds a vote; an attempt that leaves another one due has made it smaller.
-/

namespace ReplicatedLedger

namespace ReplicatedLog

/-- What is left to do without hearing from others. -/
def backlog (l : ReplicatedLog) : Nat := l.pendingProposals + l.acceptor.openSlots

/-- A stretch of a step that has decided `s`.  Unless it completed a proposal, `other` holds. -/
def Progress.Decides (q : Progress) (l : ReplicatedLog) (s : Slot) (other : Prop) : Prop :=
  q.log.acceptor.slots = l.acceptor.slots.erase s ∧
    (q.log.pendingProposals < l.pendingProposals ∨
      q.log.pendingProposals = l.pendingProposals ∧ other)

variable {l l' : ReplicatedLog} {q : Progress} {p p' : Proposal} {sender : ReplicaId}

theorem pendingProposals_congr (current' : l'.active = some p') (current : l.active = some p)
    (h : l'.waiting = l.waiting) : l'.pendingProposals = l.pendingProposals := by
  unfold pendingProposals
  rw [current', current, h]
  rfl

theorem pendingProposals_promote (idle : l.active = none) :
    l.promote.log.pendingProposals = l.pendingProposals := by
  unfold promote
  split
  · rfl
  · next first => simp [pendingProposals, first, idle]

theorem acceptor_promote (l : ReplicatedLog) : l.promote.log.acceptor = l.acceptor := by
  unfold promote
  split <;> rfl

theorem pendingProposals_complete (current : l.active = some p)
    (result : Except LedgerError Slot) :
    (l.complete p result).log.pendingProposals + 1 = l.pendingProposals := by
  show (ReplicatedLog.promote _).log.pendingProposals + 1 = _
  rw [pendingProposals_promote rfl]
  simp [pendingProposals, current]

theorem acceptor_complete (l : ReplicatedLog) (p : Proposal) (result : Except LedgerError Slot) :
    (l.complete p result).log.acceptor = l.acceptor :=
  acceptor_promote _

theorem acceptor_afterLearning (l : ReplicatedLog) : l.afterLearning.log.acceptor = l.acceptor := by
  unfold afterLearning
  split
  · rfl
  · split
    · exact acceptor_complete l _ _
    · split <;> rfl

/-- After learning, the active proposal is complete, or its command has not been chosen. -/
theorem afterLearning_cases (current : l.active = some p) :
    l.afterLearning.log.pendingProposals < l.pendingProposals ∨
      l.afterLearning.log = l ∧ l.chosenSince? p.command p.floor = none := by
  unfold afterLearning
  rw [current]
  dsimp only
  split
  · next slot since =>
    have hcomplete := pendingProposals_complete current (.ok slot)
    exact .inl (by omega)
  · next since =>
    refine .inr ⟨?_, since⟩
    split <;> rfl

/-- A last vote decides the slot of the active proposal. -/
theorem onAcceptance_decides {value : Command} {votes : SortedSet ReplicaId} (hl : l.Coherent)
    (current : l.active = some p) (phase : p.phase = .accepting value votes)
    (opened : l.chosen.get? p.slot = none) (ahead : p.floor ≤ p.slot) :
    (l.onAcceptance sender p.slot p.ballot).due = none ∨
      (l.onAcceptance sender p.slot p.ballot).Decides l p.slot (value ≠ p.command) := by
  unfold onAcceptance
  rw [current]
  dsimp only
  rw [phase]
  dsimp only
  rw [if_pos (Proposal.isCurrent_iff.2 ⟨rfl, rfl⟩)]
  split
  · next majority =>
    let counted := p.inPhase (.accepting value (votes.insert sender ()))
    let entry : LogEntry := ⟨p.slot, p.ballot, value⟩
    have news : (l.withActive counted).isNews entry = true := isNews_iff.2 opened
    have hactive : ((l.withActive counted).learn entry).active = some counted := active_learn _ _
    have hpending : ((l.withActive counted).learn entry).pendingProposals = l.pendingProposals :=
      pendingProposals_congr hactive current (waiting_learn _ _)
    have hacceptor : ((l.withActive counted).learn entry).acceptor.slots =
        l.acceptor.slots.erase p.slot := by
      unfold learn
      rw [if_pos news]
      rfl
    refine .inr ⟨?_, ?_⟩
    · show (ReplicatedLog.afterLearning _).log.acceptor.slots = _
      rw [acceptor_afterLearning]
      exact hacceptor
    · rw [← hpending]
      refine (afterLearning_cases hactive).imp_right ?_
      rintro ⟨hlog, since⟩
      refine ⟨congrArg pendingProposals hlog, ?_⟩
      -- its own command would have completed the proposal
      rintro rfl
      have hcoherent := (hl.withActive (q := counted) current rfl).learn entry
      have hbelow := (chosenSince?_eq_none_iff hcoherent.indexed).1 since p.slot entry
        (by rw [get?_chosen_learn, if_pos ⟨news, rfl⟩]) rfl
      rw [Slot.lt_iff_toNat] at hbelow
      rw [Slot.le_iff_toNat] at ahead
      exact absurd hbelow (Nat.not_lt.2 ahead)
  · exact .inl rfl

theorem requestAcceptance_decides {value : Command} (hl : l.Coherent)
    (current : l.active = some p) (opened : l.chosen.get? p.slot = none) (ahead : p.floor ≤ p.slot)
    (unrefused : l.acceptor.promised p.slot ≤ p.ballot)
    (h : l.requestAcceptance p value = .ok q) :
    q.due = none ∨ q.Decides l p.slot (value ≠ p.command) := by
  unfold requestAcceptance at h
  let asking := p.inPhase (.accepting value ∅)
  have hpending : (l.withActive asking).pendingProposals = l.pendingProposals :=
    pendingProposals_congr rfl current rfl
  have hasking : (l.withActive asking).Coherent := hl.withActive current rfl
  dsimp only at h
  split at h
  · next acceptor kept =>
    cases h
    have hvoted : ((l.withActive asking).withAcceptor acceptor).Coherent :=
      hasking.of_frame rfl rfl hasking.begun hasking.queued
    rcases onAcceptance_decides (p := asking) hvoted rfl rfl opened ahead with hdue | hdecides
    · exact .inl hdue
    · obtain ⟨hslots, hcount⟩ := hdecides
      refine .inr ⟨?_, ?_⟩
      · refine hslots.trans ?_
        show acceptor.slots.erase p.slot = _
        rw [(Acceptor.accept_eq_ok_iff.1 kept).2]
        exact SortedMap.erase_insert _ _ _
      · rw [← hpending]
        exact hcount
  · next acceptor promised refused =>
    have hok : l.acceptor.accept p.slot p.ballot value =
        (_, .ok ()) := Acceptor.accept_eq_ok_iff.2 ⟨unrefused, rfl⟩
    exact absurd (refused.symm.trans hok) (by simp)

theorem onPromise_decides {promises : SortedMap ReplicaId (Option (Ballot × Command))}
    {accepted : Option (Ballot × Command)} (hl : l.Coherent) (current : l.active = some p)
    (phase : p.phase = .preparing promises) (opened : l.chosen.get? p.slot = none)
    (ahead : p.floor ≤ p.slot) (unrefused : l.acceptor.promised p.slot ≤ p.ballot)
    (h : l.onPromise sender p.slot p.ballot accepted = .ok q) :
    q.due = none ∨
      q.Decides l p.slot (p.valueFor (promises.insert sender accepted) ≠ p.command) := by
  unfold onPromise at h
  rw [current] at h
  dsimp only at h
  rw [phase] at h
  dsimp only at h
  rw [if_pos (Proposal.isCurrent_iff.2 ⟨rfl, rfl⟩)] at h
  split at h
  · next majority =>
    let counted := p.inPhase (.preparing (promises.insert sender accepted))
    have hpending : (l.withActive counted).pendingProposals = l.pendingProposals :=
      pendingProposals_congr rfl current rfl
    have hcounted : (l.withActive counted).Coherent := hl.withActive current rfl
    have hq := requestAcceptance_decides (p := counted) hcounted rfl opened ahead unrefused h
    refine hq.imp_right ?_
    rintro ⟨hslots, hcount⟩
    rw [hpending] at hcount
    exact ⟨hslots, hcount⟩
  · cases h
    exact .inl rfl

/-- With only the own promise, another value than the own command comes from an own vote. -/
theorem exists_accepted_of_valueFor {accepted : Option (Ballot × Command)} {r : ReplicaId}
    (h : p.valueFor ((∅ : SortedMap ReplicaId _).insert r accepted) ≠ p.command) :
    ∃ a, accepted = some a := by
  cases accepted with
  | none => exact absurd rfl h
  | some a => exact ⟨a, rfl⟩

theorem requestPromises_backlog {attempts : UInt32} {next : Word} {s : Slot} {b : Ballot}
    (hl : l.Coherent) (current : l.active = some p) (target : l.firstOpenSlot = .ok s)
    (unpromised : l.acceptor.promised s < b)
    (h : l.requestPromises p s b attempts next = .ok q) :
    q.due = none ∨ q.log.backlog < l.backlog := by
  obtain ⟨hnext, _, opened⟩ := firstOpenSlot_eq_ok_iff.1 target
  unfold requestPromises at h
  dsimp only at h
  split at h
  · next acceptor accepted kept =>
    obtain ⟨q', hq', h⟩ := bind_eq_ok_iff.1 h
    cases h
    let reopened := p.reopened s b attempts l.nextAttempt
    let l' := (l.reopen p s b attempts next).withAcceptor acceptor
    obtain ⟨_, haccepted, hacceptor⟩ := Acceptor.prepare_eq_ok_iff.1 kept
    have hl' : l'.Coherent := by
      refine hl.of_frame rfl rfl ?_ hl.queued
      intro p' hp'
      cases hp'
      exact hl.begun p current
    have hpromised : acceptor.promised s = b := by
      rw [Acceptor.promised_prepare kept, if_pos rfl]
    have hpending : l'.pendingProposals = l.pendingProposals :=
      pendingProposals_congr rfl current rfl
    have hq := onPromise_decides (p := reopened) hl' rfl rfl opened
      (Slot.le_trans (hl.begun p current) hnext) (le_of_eq hpromised) hq'
    refine hq.imp_right ?_
    rintro ⟨hslots, hcount⟩
    have hslots : q'.log.acceptor.slots = l.acceptor.slots.erase s := by
      refine hslots.trans ?_
      show acceptor.slots.erase s = _
      rw [hacceptor]
      exact SortedMap.erase_insert _ _ _
    rw [hpending] at hcount
    show q'.log.pendingProposals + q'.log.acceptor.slots.size < _
    rw [hslots]
    rcases hcount with hless | ⟨hsame, hother⟩
    · have hsize := SortedMap.size_erase_le l.acceptor.slots s
      show _ < l.pendingProposals + l.acceptor.slots.size
      omega
    · -- the value was voted for before, so a vote has been dropped
      obtain ⟨a, ha⟩ := exists_accepted_of_valueFor hother
      have hvote : ∃ v, l.acceptor.slots.get? s = some v := by
        by_contra hnone
        have hnone : l.acceptor.slots.get? s = none := by
          rw [Option.eq_none_iff_forall_ne_some]
          exact fun v hv => hnone ⟨v, hv⟩
        have haccepted : accepted = l.acceptor.accepted s := haccepted
        unfold Acceptor.accepted Acceptor.vote at haccepted
        rw [hnone, ha] at haccepted
        cases haccepted
      obtain ⟨v, hv⟩ := hvote
      have hsize := SortedMap.size_erase_lt hv
      show _ < l.pendingProposals + l.acceptor.slots.size
      omega
  · next acceptor promised refused =>
    have hok : l.acceptor.prepare s b = (_, .ok (l.acceptor.accepted s)) :=
      Acceptor.prepare_eq_ok_iff.2 ⟨le_of_lt unpromised, rfl, rfl⟩
    exact absurd (refused.symm.trans hok) (by simp)

/-- An attempt that leaves another one due makes the backlog smaller. -/
theorem beginAttempt_backlog {charge : Charge} (hl : l.Coherent)
    (h : l.beginAttempt charge = .ok q) : q.due = none ∨ q.log.backlog < l.backlog := by
  unfold beginAttempt at h
  split at h
  · cases h
    exact .inl rfl
  · next p current =>
    split at h
    · next slot since =>
      cases h
      have hcomplete := pendingProposals_complete current (.ok slot)
      right
      unfold backlog
      rw [acceptor_complete]
      omega
    · obtain ⟨slot, target, h⟩ := bind_eq_ok_iff.1 h
      obtain ⟨ballot, hballot, h⟩ := bind_eq_ok_iff.1 h
      obtain ⟨next, _, h⟩ := bind_eq_ok_iff.1 h
      obtain ⟨attempts, _, h⟩ := bind_eq_ok_iff.1 h
      have above := (Ballot.nextFor_eq_ok hballot).1
      exact requestPromises_backlog hl current target
        (lt_of_le_of_lt (le_max_right _ _) above) h

end ReplicatedLog

end ReplicatedLedger
