import ReplicatedLedger.Proofs.Consensus.Timers

/-!
The attempts that a step charges to proposals.  A proposal is begun with one attempt charged to it,
and another one is charged only at the end of its timer: to go on with another slot is free.  No
proposal is given up that has attempts left.
-/

namespace ReplicatedLedger

theorem toNat_of_sumCounts {a b c : UInt32} (h : sumCounts a b = .ok c) :
    c.toNat = a.toNat + b.toNat := by
  unfold sumCounts at h
  split at h
  · next hlt =>
    cases h
    rw [UInt32.toNat_add, Nat.mod_eq_of_lt hlt]
  · cases h

theorem ConsensusPolicy.withMaxAttempts_pos (p : ConsensusPolicy) (attempts : UInt32) :
    1 ≤ (p.withMaxAttempts attempts).maxAttempts := by
  unfold withMaxAttempts
  dsimp only
  split
  · exact UInt32.le_refl 1
  · next hne =>
    rw [UInt32.le_iff_toNat_le]
    exact Nat.one_le_iff_ne_zero.2 fun hzero => hne (UInt32.toNat_inj.1 hzero)

theorem Acceptor.promised_of_accept_eq_error {a a' : Acceptor} {s : Slot} {b promised : Ballot}
    {c : Command} (h : a.accept s b c = (a', .error promised)) : a.promised s = promised := by
  unfold accept at h
  split at h
  · cases h
    rfl
  · cases h

namespace ReplicatedLog

/-- The attempts that one counts as. -/
def Charge.cost : Charge → Nat
  | .charged => 1
  | .free => 0

theorem Charge.toNat_of_count {charge : Charge} {attempts total : UInt32}
    (h : charge.count attempts = .ok total) : total.toNat = attempts.toNat + charge.cost := by
  cases charge with
  | charged => exact toNat_of_sumCounts h
  | free =>
      cases h
      rfl

/-- The attempts that a call charges to the active proposal: one if it brings the end of its
timer. -/
def Call.charges (p : Proposal) : Call → Nat
  | .expire t => if t = p.timer then 1 else 0
  | _ => 0

theorem Call.charges_timer (p : Proposal) : (Call.expire p.timer).charges p = 1 := if_pos rfl

end ReplicatedLog

/-- How a call may put an end to a proposal: its attempt has run out of time, or a peer or the
replica's own acceptor has promised a higher ballot. -/
inductive Proposal.GivesUp (p : Proposal) : ReplicatedLog.Call → LedgerError → Prop
  | timedOut : GivesUp p (.expire (.attempt p.attempt)) (.quorumUnavailable p.attempts)
  | refused {sender : ReplicaId} {promised : Ballot} (higher : p.ballot < promised) :
      GivesUp p (.deliver sender (.nack p.ballot p.slot promised)) (.staleBallot promised)
  | outbid {sender : ReplicaId} {accepted : Option (Ballot × Command)} {promised : Ballot}
      (higher : p.ballot < promised) :
      GivesUp p (.deliver sender (.promise p.ballot p.slot accepted)) (.staleBallot promised)

theorem Proposal.GivesUp.attempts_eq {p : Proposal} {call : ReplicatedLog.Call} {attempts : UInt32}
    (h : p.GivesUp call (.quorumUnavailable attempts)) : attempts = p.attempts := by
  cases h
  rfl

/-- What a step may bring about: the attempts charged to each proposal by the end of it, and the
completions that are failures. -/
structure Allowance where
  limit : UInt32
  positive : 1 ≤ limit
  charged : ProposalId → Nat
  fails : Completion → Prop

/-- Whether a proposal may fail for a reason once its attempts are used up. -/
def Allowance.Excuses (a : Allowance) (p : Proposal) (reason : LedgerError) : Prop :=
  a.limit ≤ p.attempts → a.fails ⟨p.id, p.command, .error reason⟩

namespace ReplicatedLog

variable {l l' : ReplicatedLog} {a : Allowance} {q : Progress} {p : Proposal} {s : Slot}
  {b promised : Ballot} {c : Command} {t : Timer} {sender : ReplicaId} {due : Option Charge}
  {said actions : List Action} {call : Call} {reply : Reply}

/-- A log that keeps to an allowance in all but its active proposal. -/
structure Affords (l : ReplicatedLog) (a : Allowance) : Prop where
  limit : l.policy.maxAttempts = a.limit
  waiting : ∀ s ∈ l.waiting, a.charged s.id = 1
  failed : ∀ x ∈ l.completions, ∀ reason, x.result = .error reason → a.fails x

theorem Affords.of_frame (h : l.Affords a) (hpolicy : l'.policy = l.policy)
    (hwaiting : l'.waiting = l.waiting) (hcompletions : l'.completions = l.completions) :
    l'.Affords a where
  limit := hpolicy ▸ h.limit
  waiting := hwaiting ▸ h.waiting
  failed := hcompletions ▸ h.failed

/-- A log that keeps to an allowance, with the attempt that is due counted in.  A proposal pauses
only if another attempt is left. -/
structure Obeys (l : ReplicatedLog) (a : Allowance) (due : Option Charge) : Prop where
  affords : l.Affords a
  counted : ∀ p, l.active = some p → p.attempts.toNat + due.elim 0 Charge.cost = a.charged p.id
  within : ∀ p, l.active = some p → a.charged p.id ≤ a.limit.toNat
  paused : due = none → ∀ p, l.active = some p → p.phase = .backoff → p.attempts < a.limit

def Progress.Obeys (q : Progress) (a : Allowance) : Prop := q.log.Obeys a q.due

theorem Progress.Obeys.after (h : q.Obeys a) : (Progress.after said q).Obeys a := h

namespace Obeys

theorem of_frame (h : l.Obeys a due) (hpolicy : l'.policy = l.policy)
    (hactive : l'.active = l.active) (hwaiting : l'.waiting = l.waiting)
    (hcompletions : l'.completions = l.completions) : l'.Obeys a due where
  affords := h.affords.of_frame hpolicy hwaiting hcompletions
  counted := hactive ▸ h.counted
  within := hactive ▸ h.within
  paused := hactive ▸ h.paused

theorem observe (h : l.Obeys a due) (b : Ballot) : (l.observe b).Obeys a due :=
  h.of_frame rfl rfl rfl rfl

theorem withAcceptor (h : l.Obeys a due) (acceptor : Acceptor) :
    (l.withAcceptor acceptor).Obeys a due :=
  h.of_frame rfl rfl rfl rfl

theorem learn (h : l.Obeys a due) (e : LogEntry) : (l.learn e).Obeys a due :=
  h.of_frame (policy_learn l e) (active_learn l e) (waiting_learn l e) (completions_learn l e)

/-- A proposal goes on to another phase of its attempt. -/
theorem inPhase (h : l.Obeys a none) (current : l.active = some p) (phase : Phase)
    (pauses : phase = .backoff → p.attempts < a.limit) :
    (l.withActive (p.inPhase phase)).Obeys a none where
  affords := h.affords.of_frame rfl rfl rfl
  counted p' current' := by
    cases current'
    exact h.counted p current
  within p' current' := by
    cases current'
    exact h.within p current
  paused _ p' current' := by
    cases current'
    exact pauses

theorem of_idle (h : l.Affords a) (idle : l.active = none) : l.Obeys a due where
  affords := h
  counted p current := by
    rw [idle] at current
    cases current
  within p current := by
    rw [idle] at current
    cases current
  paused _ p current := by
    rw [idle] at current
    cases current

/-- A free attempt costs as much as none. -/
theorem free (h : l.Obeys a none) : l.Obeys a (some .free) where
  affords := h.affords
  counted := h.counted
  within := h.within
  paused hdue := by cases hdue

end Obeys

/-! ### The proposer -/

theorem promote_obeys (h : l.Affords a) (idle : l.active = none) : l.promote.Obeys a := by
  unfold promote
  split
  · exact .of_idle h idle
  · next s rest first =>
    have hfirst : a.charged s.id = 1 := h.waiting s (first ▸ List.mem_cons_self)
    refine ⟨⟨h.limit, fun s' hs' => ?_, h.failed⟩, ?_, ?_, fun hdue => (by cases hdue)⟩
    · exact h.waiting s' (first ▸ List.mem_cons_of_mem s hs')
    · intro p current
      cases current
      exact hfirst.symm
    · intro p current
      cases current
      exact hfirst.trans_le (UInt32.le_iff_toNat_le.1 a.positive)

theorem complete_obeys (h : l.Affords a) {result : Except LedgerError Slot}
    (excused : ∀ reason, result = .error reason → a.fails ⟨p.id, p.command, result⟩) :
    (l.complete p result).Obeys a := by
  refine Progress.Obeys.after (promote_obeys ⟨h.limit, h.waiting, ?_⟩ rfl)
  intro x hx reason hreason
  rcases List.mem_append.1 hx with hold | hnew
  · exact h.failed x hold reason hreason
  · cases List.mem_singleton.1 hnew
    exact excused reason hreason

theorem complete_ok_obeys (h : l.Affords a) : (l.complete p (.ok s)).Obeys a :=
  complete_obeys h fun _ hreason => (by cases hreason)

theorem complete_error_obeys (h : l.Affords a) {reason : LedgerError} (excused : a.Excuses p reason)
    (spent : l.policy.maxAttempts ≤ p.attempts) : (l.complete p (.error reason)).Obeys a :=
  complete_obeys h fun _ _ => excused (h.limit ▸ spent)

theorem onRefusal_obeys (h : l.Obeys a none)
    (excused : ∀ p, l.active = some p → p.slot = s → p.ballot = b →
      a.Excuses p (.staleBallot promised))
    (hq : l.onRefusal s b promised = .ok q) : q.Obeys a := by
  unfold onRefusal at hq
  have hobserved := h.observe promised
  have hexcused : ∀ p, (l.observe promised).active = some p → p.slot = s → p.ballot = b →
      a.Excuses p (.staleBallot promised) := excused
  generalize l.observe promised = l at hq hobserved hexcused
  dsimp only at hq
  split at hq
  · cases hq
    exact hobserved
  · next p current =>
    split at hq
    · next hcur =>
      obtain ⟨hslot, hballot⟩ := Proposal.isCurrent_iff.1 (Bool.and_eq_true_iff.1 hcur).1
      split at hq
      · next spent =>
        cases hq
        have hpaused : (l.withActive (p.inPhase .backoff)).Affords a :=
          hobserved.affords.of_frame rfl rfl rfl
        exact (complete_error_obeys hpaused (hexcused p current hslot hballot) spent).after
      · next left =>
        obtain ⟨pause, _, hq⟩ := bind_eq_ok_iff.1 hq
        cases hq
        refine hobserved.inPhase current .backoff fun _ => ?_
        rw [← hobserved.affords.limit]
        exact UInt32.not_le.1 left
    · cases hq
      exact hobserved

theorem afterLearning_obeys (h : l.Obeys a none) : l.afterLearning.Obeys a := by
  unfold afterLearning
  split
  · exact h
  · split
    · exact complete_ok_obeys h.affords
    · split
      · exact h.free
      · exact h

theorem onAcceptance_obeys (h : l.Obeys a none) : (l.onAcceptance sender s b).Obeys a := by
  unfold onAcceptance
  split
  · exact h
  · next p current =>
    split
    · next value votes phase =>
      split
      · have hcounted := h.inPhase current
          (.accepting value (votes.insert sender ())) (by simp)
        dsimp only
        split
        · exact (afterLearning_obeys (hcounted.learn _)).after
        · exact hcounted
      · exact h
    · exact h

theorem requestAcceptance_obeys (h : l.Obeys a none) (current : l.active = some p)
    (excused : p.ballot < l.acceptor.promised p.slot →
      a.Excuses p (.staleBallot (l.acceptor.promised p.slot)))
    (hq : l.requestAcceptance p c = .ok q) : q.Obeys a := by
  unfold requestAcceptance at hq
  have hasking := h.inPhase current (.accepting c ∅) (by simp)
  dsimp only at hq
  split at hq
  · cases hq
    exact (onAcceptance_obeys (hasking.withAcceptor _)).after
  · next acceptor promised refused =>
    obtain ⟨q', hq', hq⟩ := bind_eq_ok_iff.1 hq
    cases hq
    have hpromised : l.acceptor.promised p.slot = promised :=
      Acceptor.promised_of_accept_eq_error refused
    refine Progress.Obeys.after (onRefusal_obeys (hasking.withAcceptor _) ?_ hq')
    intro p' current' _ _
    cases current'
    exact hpromised ▸ excused (hpromised ▸ (Acceptor.accept_eq_error refused).2)

theorem onPromise_obeys {accepted : Option (Ballot × Command)} (h : l.Obeys a none)
    (excused : ∀ p, l.active = some p → p.slot = s → p.ballot = b → b < l.acceptor.promised s →
      a.Excuses p (.staleBallot (l.acceptor.promised s)))
    (hq : l.onPromise sender s b accepted = .ok q) : q.Obeys a := by
  unfold onPromise at hq
  split at hq
  · cases hq
    exact h
  · next p current =>
    split at hq
    · next promises phase =>
      split at hq
      · next hcur =>
        obtain ⟨rfl, rfl⟩ := Proposal.isCurrent_iff.1 hcur
        have hcounted := h.inPhase current
          (.preparing (promises.insert sender accepted)) (by simp)
        dsimp only at hq
        split at hq
        · exact requestAcceptance_obeys hcounted rfl (excused p current rfl rfl) hq
        · cases hq
          exact hcounted
      · cases hq
        exact h
    · cases hq
      exact h

/-- The own acceptor does not refuse a ballot that goes beyond its promise. -/
theorem requestPromises_obeys {attempts : UInt32} {next : Word} {charge : Charge}
    (h : l.Obeys a (some charge)) (current : l.active = some p)
    (hattempts : charge.count p.attempts = .ok attempts) (unpromised : l.acceptor.promised s < b)
    (hq : l.requestPromises p s b attempts next = .ok q) : q.Obeys a := by
  unfold requestPromises at hq
  have hreopened : (l.reopen p s b attempts next).Obeys a none := by
    refine ⟨h.affords.of_frame rfl rfl rfl, ?_, ?_, fun _ p' current' phase => ?_⟩
    · intro p' current'
      cases current'
      exact (Charge.toNat_of_count hattempts).trans (h.counted p current)
    · intro p' current'
      cases current'
      exact h.within p current
    · cases current'
      cases phase
  have unrefused : (l.reopen p s b attempts next).acceptor.promised s ≤ b := le_of_lt unpromised
  generalize l.reopen p s b attempts next = l' at hq hreopened unrefused
  dsimp only at hq
  split at hq
  · next acceptor accepted kept =>
    obtain ⟨q', hq', hq⟩ := bind_eq_ok_iff.1 hq
    cases hq
    refine Progress.Obeys.after (onPromise_obeys (hreopened.withAcceptor acceptor) ?_ hq')
    intro p' _ _ _ (refused : b < acceptor.promised s)
    rw [Acceptor.promised_prepare kept, if_pos rfl] at refused
    exact absurd refused (lt_irrefl b)
  · next acceptor promised refused =>
    rw [Acceptor.prepare_eq_ok_iff.2 ⟨unrefused, rfl, rfl⟩] at refused
    cases refused

theorem beginAttempt_obeys {charge : Charge} (h : l.Obeys a (some charge))
    (hq : l.beginAttempt charge = .ok q) : q.Obeys a := by
  unfold beginAttempt at hq
  split at hq
  · next idle =>
    cases hq
    exact .of_idle h.affords idle
  · next p current =>
    split at hq
    · cases hq
      exact complete_ok_obeys h.affords
    · obtain ⟨slot, _, hq⟩ := bind_eq_ok_iff.1 hq
      obtain ⟨ballot, hballot, hq⟩ := bind_eq_ok_iff.1 hq
      obtain ⟨next, _, hq⟩ := bind_eq_ok_iff.1 hq
      obtain ⟨attempts, hattempts, hq⟩ := bind_eq_ok_iff.1 hq
      have above := (Ballot.nextFor_eq_ok hballot).1
      exact requestPromises_obeys h current hattempts
        (lt_of_le_of_lt (le_max_right _ _) above) hq

theorem pursue_obeys (hl : q.log.Coherent) (hq : q.Obeys a)
    (h : pursue q = .ok (l', actions)) : l'.Obeys a none :=
  pursue_induction (P := (·.Obeys a))
    (fun _ _ _ hq hdue hq' => (beginAttempt_obeys (hdue ▸ hq) hq').after) hl hq h

/-! ### Messages -/

theorem answerPrepare_obeys (h : l.Obeys a none) : (l.answerPrepare sender b s).Obeys a := by
  unfold answerPrepare
  dsimp only
  split
  · exact h.observe b
  · exact (h.observe b).withAcceptor _

theorem answerAccept_obeys (h : l.Obeys a none) : (l.answerAccept sender b s c).Obeys a := by
  unfold answerAccept
  dsimp only
  split
  · exact h.observe b
  · exact (h.observe b).withAcceptor _

theorem onChosen_obeys {e : LogEntry} (h : l.Obeys a none) (hq : l.onChosen sender e = .ok q) :
    q.Obeys a := by
  obtain ⟨requests, _, rfl⟩ := map_eq_ok_iff.1 hq
  exact (afterLearning_obeys (h.learn e)).after

theorem Obeys.learnAll {batch : List LogEntry} (h : l.Obeys a none) :
    (batch.foldl ReplicatedLog.learn l).Obeys a none := by
  induction batch generalizing l with
  | nil => exact h
  | cons e batch ih => exact ih (h.learn e)

theorem onCatchUpResponse_obeys {batch : List LogEntry} (h : l.Obeys a none)
    (hq : l.onCatchUpResponse sender batch = .ok q) : q.Obeys a := by
  obtain ⟨requests, _, rfl⟩ := map_eq_ok_iff.1 hq
  exact (afterLearning_obeys h.learnAll).after

theorem onCatchUpRequest_obeys {start : Slot} (h : l.Obeys a none) :
    (l.onCatchUpRequest sender start).Obeys a := by
  unfold onCatchUpRequest
  dsimp only
  split <;> exact h

/-- Of all messages, only those that tell of a higher ballot put an end to a proposal. -/
theorem onMessage_obeys {m : Message} (h : l.Obeys a none)
    (truthful : ∀ b s promised, m = .nack b s promised → b < promised)
    (excused : ∀ p reason, l.active = some p → p.GivesUp (.deliver sender m) reason →
      a.Excuses p reason)
    (hq : l.onMessage sender m = .ok q) : q.Obeys a := by
  unfold onMessage at hq
  split at hq
  · cases m with
    | prepare b s =>
        cases hq
        exact answerPrepare_obeys h
    | promise b s accepted =>
        have houtbid : ∀ p, l.active = some p → p.slot = s → p.ballot = b →
            b < l.acceptor.promised s → a.Excuses p (.staleBallot (l.acceptor.promised s)) := by
          rintro p current rfl rfl higher
          exact excused p _ current (.outbid higher)
        cases accepted with
        | none => exact onPromise_obeys h houtbid hq
        | some vote => exact onPromise_obeys (h.observe vote.1) houtbid hq
    | accept b s c =>
        cases hq
        exact answerAccept_obeys h
    | accepted b s =>
        cases hq
        exact onAcceptance_obeys h
    | nack b s promised =>
        refine onRefusal_obeys h ?_ hq
        rintro p current rfl rfl
        exact excused p _ current (.refused (truthful _ _ _ rfl))
    | chosen e => exact onChosen_obeys h hq
    | catchUpRequest start =>
        cases hq
        exact onCatchUpRequest_obeys h
    | catchUpResponse batch => exact onCatchUpResponse_obeys h hq
  · cases hq
    exact h

/-! ### Timers -/

/-- The end of its timer either puts an end to a proposal whose attempts are used up, or has another
one charged. -/
theorem onTimer_timer (current : l.active = some p) :
    (p.phase ≠ .backoff ∧ l.policy.maxAttempts ≤ p.attempts ∧
      l.onTimer p.timer = l.complete p (.error (.quorumUnavailable p.attempts))) ∨
    (p.phase = .backoff ∨ p.attempts < l.policy.maxAttempts) ∧
      l.onTimer p.timer = { log := l, due := some .charged } := by
  unfold onTimer
  rw [current]
  by_cases phase : p.phase = .backoff
  · have htimer : p.timer = .retry p.attempt := by
      unfold Proposal.timer
      rw [phase]
    rw [htimer]
    exact .inr ⟨.inl phase, if_pos (Proposal.timer_eq_retry_iff.2 htimer)⟩
  · have htimer := Proposal.timer_of_underway phase
    rw [htimer]
    dsimp only
    rw [if_pos (Proposal.timer_eq_attempt_iff.2 htimer)]
    split
    · next spent => exact .inl ⟨phase, spent, rfl⟩
    · next left => exact .inr ⟨.inr (UInt32.not_le.1 left), rfl⟩

end ReplicatedLog

end ReplicatedLedger
