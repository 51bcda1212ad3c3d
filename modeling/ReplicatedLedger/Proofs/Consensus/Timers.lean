import Mathlib.Data.Finset.Basic
import ReplicatedLedger.Proofs.Consensus.Agreement

/-!
The timers of a log.  Between calls one timer is armed for the active proposal, and none if there is
no proposal at all, so that no proposal waits for an answer that may never come.  While an attempt
is due, the timers of the attempt before it may still be armed; the new attempt cancels them.
-/

namespace ReplicatedLedger

/-- The timers that are armed once an action is carried out. -/
def Action.arm (armed : Finset Timer) : Action → Finset Timer
  | .setTimer t _ => insert t armed
  | .cancelTimer t => armed.erase t
  | .send .. | .respond .. => armed

/-- The timers that are armed once actions are carried out in order. -/
def absorb (armed : Finset Timer) (actions : List Action) : Finset Timer :=
  actions.foldl Action.arm armed

theorem absorb_append (armed : Finset Timer) (actions more : List Action) :
    absorb armed (actions ++ more) = absorb (absorb armed actions) more :=
  List.foldl_append

/-- The timer that a proposal waits for. -/
def Proposal.timer (p : Proposal) : Timer :=
  match p.phase with
  | .preparing _ | .accepting .. => .attempt p.attempt
  | .backoff => .retry p.attempt

theorem Proposal.number_timer (p : Proposal) : p.timer.number = p.attempt := by
  unfold timer
  split <;> rfl

theorem Proposal.timer_of_underway {p : Proposal} (h : p.phase ≠ .backoff) :
    p.timer = .attempt p.attempt := by
  unfold timer
  split
  · rfl
  · rfl
  · next phase => exact absurd phase h

/-- A proposal waits for the end of its attempt, or of the pause after it. -/
theorem Proposal.timer_eq_attempt_iff {p : Proposal} {n : Word} :
    (p.attempt = n && !p.isBackingOff) = true ↔ p.timer = .attempt n := by
  unfold timer isBackingOff
  cases p.phase <;> simp

theorem Proposal.timer_eq_retry_iff {p : Proposal} {n : Word} :
    (p.attempt = n && p.isBackingOff) = true ↔ p.timer = .retry n := by
  unfold timer isBackingOff
  cases p.phase <;> simp

/-- Without both timers of an attempt, none of that attempt is left. -/
theorem absorb_cancel {armed : Finset Timer} {n : Word} (h : ∀ t ∈ armed, t.number = n) :
    absorb armed [.cancelTimer (.attempt n), .cancelTimer (.retry n)] = ∅ := by
  refine Finset.eq_empty_of_forall_notMem fun t ht => ?_
  obtain ⟨hretry, ht⟩ := Finset.mem_erase.1 ht
  obtain ⟨hattempt, ht⟩ := Finset.mem_erase.1 ht
  have hnumber := h t ht
  cases t with
  | attempt k => exact hattempt (congrArg Timer.attempt hnumber)
  | retry k => exact hretry (congrArg Timer.retry hnumber)

namespace ReplicatedLog

variable {l l' : ReplicatedLog} {q : Progress} {p : Proposal} {armed : Finset Timer}
  {said actions : List Action} {sender : ReplicaId} {s : Slot} {b : Ballot} {c : Command}
  {t : Timer} {call : Call} {reply : Reply}

@[simp] theorem absorb_sendTo (l : ReplicatedLog) (armed : Finset Timer) (peer : ReplicaId)
    (m : Message) : absorb armed (l.sendTo peer m) = armed := by
  unfold sendTo
  split <;> rfl

@[simp] theorem absorb_sendToPeers (l : ReplicatedLog) (armed : Finset Timer) (m : Message) :
    absorb armed (l.sendToPeers m) = armed := by
  unfold sendToPeers
  induction l.topology.peers with
  | nil => rfl
  | cons peer rest ih => rw [List.flatMap_cons, absorb_append, absorb_sendTo, ih]

/-! ### What is armed for a log -/

/-- The timers that ought to be armed between calls. -/
def timers (l : ReplicatedLog) : Finset Timer :=
  match l.active with
  | none => ∅
  | some p => {p.timer}

/-- A log between calls with the timers that are armed: each proposal has its wake-up, since those
that wait are woken by the end of the active one. -/
structure Attended (l : ReplicatedLog) (armed : Finset Timer) : Prop where
  eq_timers : armed = l.timers
  idle : l.active = none → l.waiting = []

theorem timers_of_active (current : l.active = some p) : l.timers = {p.timer} := by
  unfold timers
  rw [current]

theorem timers_of_idle (idle : l.active = none) : l.timers = ∅ := by
  unfold timers
  rw [idle]

theorem attended_of_active (current : l.active = some p) : l.Attended {p.timer} where
  eq_timers := (timers_of_active current).symm
  idle h := by
    rw [current] at h
    cases h

namespace Attended

/-- A log whose proposals are the same. -/
theorem of_frame (h : l.Attended armed) (hactive : l'.active = l.active)
    (hwaiting : l'.waiting = l.waiting) : l'.Attended armed where
  eq_timers := by
    unfold timers
    rw [hactive]
    exact h.eq_timers
  idle := by
    rw [hactive, hwaiting]
    exact h.idle

theorem observe (h : l.Attended armed) (b : Ballot) : (l.observe b).Attended armed :=
  h.of_frame rfl rfl

theorem withAcceptor (h : l.Attended armed) (a : Acceptor) : (l.withAcceptor a).Attended armed :=
  h.of_frame rfl rfl

theorem learn (h : l.Attended armed) (e : LogEntry) : (l.learn e).Attended armed :=
  h.of_frame (active_learn l e) (waiting_learn l e)

theorem eq_of_active (h : l.Attended armed) (current : l.active = some p) : armed = {p.timer} :=
  h.eq_timers.trans (timers_of_active current)

theorem number_eq (h : l.Attended armed) (current : l.active = some p) :
    ∀ t ∈ armed, t.number = p.attempt := by
  rw [h.eq_of_active current]
  intro t ht
  rw [Finset.mem_singleton.1 ht, p.number_timer]

/-- The same attempt waits for the same timer in its next phase. -/
theorem withActive (h : l.Attended armed) (current : l.active = some p)
    (underway : p.phase ≠ .backoff) (phase : Phase) (onward : phase ≠ .backoff) :
    (l.withActive (p.inPhase phase)).Attended armed := by
  have hsame : (p.inPhase phase).timer = p.timer :=
    (Proposal.timer_of_underway (p := p.inPhase phase) onward).trans
      (Proposal.timer_of_underway underway).symm
  rw [h.eq_of_active current, ← hsame]
  exact attended_of_active rfl

end Attended

/-- A stretch of a step that leaves the right timers armed.  If another attempt is due, they are of
the last one. -/
structure Progress.Serves (q : Progress) (armed : Finset Timer) : Prop where
  attended : q.due = none → q.log.Attended (absorb armed q.actions)
  outdated : ∀ charge, q.due = some charge → ∃ p, q.log.active = some p ∧
    ∀ t ∈ absorb armed q.actions, t.number = p.attempt

namespace Progress.Serves

theorem done (h : l.Attended (absorb armed actions)) :
    Serves { log := l, actions := actions } armed :=
  ⟨fun _ => h, fun _ hdue => (by cases hdue)⟩

theorem replying {peer : ReplicaId} {m : Message} (h : l.Attended armed) :
    Serves { log := l, actions := l'.sendTo peer m } armed :=
  .done ((absorb_sendTo l' armed peer m).symm ▸ h)

theorem due (current : l.active = some p) (h : ∀ t ∈ armed, t.number = p.attempt)
    (charge : Charge) : Serves { log := l, due := some charge } armed :=
  ⟨fun hdue => (by cases hdue), fun _ _ => ⟨p, current, h⟩⟩

theorem after (h : q.Serves (absorb armed said)) : (Progress.after said q).Serves armed where
  attended hdue := by
    show q.log.Attended (absorb armed (said ++ q.actions))
    rw [absorb_append]
    exact h.attended hdue
  outdated := by
    show ∀ charge, q.due = some charge → ∃ p, q.log.active = some p ∧
      ∀ t ∈ absorb armed (said ++ q.actions), t.number = p.attempt
    rw [absorb_append]
    exact h.outdated

end Progress.Serves

open Progress (Serves)

/-! ### The proposer -/

theorem promote_serves (idle : l.active = none) : l.promote.Serves ∅ := by
  unfold promote
  split
  · next hwaiting =>
    exact .done ⟨(timers_of_idle idle).symm, fun _ => hwaiting⟩
  · exact .due rfl (fun t ht => absurd ht (Finset.notMem_empty t)) .charged

/-- The end of a proposal cancels whatever is armed for it. -/
theorem complete_serves (h : ∀ t ∈ armed, t.number = p.attempt)
    (result : Except LedgerError Slot) : (l.complete p result).Serves armed := by
  unfold complete
  refine Serves.after ?_
  rw [absorb_cancel h]
  exact promote_serves rfl

theorem onRefusal_serves {promised : Ballot} (hl : l.Attended armed)
    (h : l.onRefusal s b promised = .ok q) : q.Serves armed := by
  unfold onRefusal at h
  have hobserved := hl.observe promised
  generalize l.observe promised = l at h hobserved
  dsimp only at h
  split at h
  · cases h
    exact .done hobserved
  · next p current =>
    split at h
    · next hcur =>
      have underway : p.phase ≠ .backoff := by
        intro phase
        simp [Proposal.isBackingOff, phase] at hcur
      -- the timer of the attempt is all that is armed
      have hcancelled : armed.erase (.attempt p.attempt) = ∅ := by
        rw [hobserved.eq_of_active current, Proposal.timer_of_underway underway]
        exact Finset.erase_singleton _
      split at h
      · cases h
        refine Serves.after ?_
        show Serves _ (armed.erase (.attempt p.attempt))
        rw [hcancelled]
        exact complete_serves (fun t ht => absurd ht (Finset.notMem_empty t)) _
      · obtain ⟨pause, _, h⟩ := bind_eq_ok_iff.1 h
        cases h
        refine .done ?_
        show Attended _ (insert (.retry p.attempt) (armed.erase (.attempt p.attempt)))
        rw [hcancelled]
        exact attended_of_active (p := p.inPhase .backoff) rfl
    · cases h
      exact .done hobserved

theorem afterLearning_serves (hl : l.Attended armed) : l.afterLearning.Serves armed := by
  unfold afterLearning
  split
  · exact .done hl
  · next p current =>
    split
    · exact complete_serves (hl.number_eq current) _
    · split
      · exact .due current (hl.number_eq current) .free
      · exact .done hl

theorem onAcceptance_serves (hl : l.Attended armed) :
    (l.onAcceptance sender s b).Serves armed := by
  unfold onAcceptance
  split
  · exact .done hl
  · next p current =>
    split
    · next value votes phase =>
      split
      · have hcounted := hl.withActive current (by simp [phase])
          (.accepting value (votes.insert sender ())) (by simp)
        dsimp only
        split
        · refine Serves.after ?_
          rw [absorb_sendToPeers]
          exact afterLearning_serves (hcounted.learn _)
        · exact .done hcounted
      · exact .done hl
    · exact .done hl

theorem requestAcceptance_serves (hl : l.Attended armed) (current : l.active = some p)
    (underway : p.phase ≠ .backoff) (h : l.requestAcceptance p c = .ok q) : q.Serves armed := by
  unfold requestAcceptance at h
  have hasking := hl.withActive current underway (.accepting c ∅) (by simp)
  generalize l.withActive (p.inPhase (.accepting c ∅)) = l at h hasking
  dsimp only at h
  split at h
  · cases h
    refine Serves.after ?_
    rw [absorb_sendToPeers]
    exact onAcceptance_serves (hasking.withAcceptor _)
  · obtain ⟨q', hq', h⟩ := bind_eq_ok_iff.1 h
    cases h
    refine Serves.after ?_
    rw [absorb_sendToPeers]
    exact onRefusal_serves (hasking.withAcceptor _) hq'

theorem onPromise_serves {accepted : Option (Ballot × Command)} (hl : l.Attended armed)
    (h : l.onPromise sender s b accepted = .ok q) : q.Serves armed := by
  unfold onPromise at h
  split at h
  · cases h
    exact .done hl
  · next p current =>
    split at h
    · next promises phase =>
      split at h
      · have hcounted := hl.withActive current (by simp [phase])
          (.preparing (promises.insert sender accepted)) (by simp)
        dsimp only at h
        split at h
        · exact requestAcceptance_serves hcounted rfl (by simp [Proposal.inPhase]) h
        · cases h
          exact .done hcounted
      · cases h
        exact .done hl
    · cases h
      exact .done hl

/-- An attempt takes the place of the one before it, and its timer that of the other's timers. -/
theorem requestPromises_serves {attempts : UInt32} {next : Word}
    (h : ∀ t ∈ armed, t.number = p.attempt)
    (hq : l.requestPromises p s b attempts next = .ok q) : q.Serves armed := by
  unfold requestPromises at hq
  have harmed : absorb armed [.cancelTimer (.attempt p.attempt), .cancelTimer (.retry p.attempt),
      .setTimer (.attempt l.nextAttempt) l.policy.attemptTimeout] = {.attempt l.nextAttempt} :=
    congrArg (insert (Timer.attempt l.nextAttempt)) (absorb_cancel h)
  have hreopened : (l.reopen p s b attempts next).Attended {.attempt l.nextAttempt} :=
    attended_of_active (p := p.reopened s b attempts l.nextAttempt) rfl
  generalize l.reopen p s b attempts next = l' at hq hreopened
  dsimp only at hq
  split at hq
  all_goals
    obtain ⟨q', hq', hq⟩ := bind_eq_ok_iff.1 hq
    cases hq
    refine Serves.after ?_
    rw [absorb_append, absorb_sendToPeers, harmed]
  · exact onPromise_serves (hreopened.withAcceptor _) hq'
  · exact onRefusal_serves (hreopened.withAcceptor _) hq'

theorem beginAttempt_serves {charge : Charge} (current : l.active = some p)
    (h : ∀ t ∈ armed, t.number = p.attempt) (hq : l.beginAttempt charge = .ok q) :
    q.Serves armed := by
  unfold beginAttempt at hq
  rw [current] at hq
  dsimp only at hq
  split at hq
  · cases hq
    exact complete_serves h _
  · obtain ⟨slot, _, hq⟩ := bind_eq_ok_iff.1 hq
    obtain ⟨ballot, _, hq⟩ := bind_eq_ok_iff.1 hq
    obtain ⟨next, _, hq⟩ := bind_eq_ok_iff.1 hq
    obtain ⟨attempts, _, hq⟩ := bind_eq_ok_iff.1 hq
    exact requestPromises_serves h hq

theorem pursue_attended (hl : q.log.Coherent) (hq : q.Serves armed)
    (h : pursue q = .ok (l', actions)) : l'.Attended (absorb armed actions) := by
  refine (pursue_induction (P := (·.Serves armed)) (fun q charge q' hq hdue hq' => ?_) hl hq
    h).attended rfl
  obtain ⟨p, current, hnumber⟩ := hq.outdated charge hdue
  exact (beginAttempt_serves current hnumber hq').after

/-! ### Messages -/

theorem answerPrepare_serves (hl : l.Attended armed) :
    (l.answerPrepare sender b s).Serves armed := by
  unfold answerPrepare
  dsimp only
  split
  · exact .replying (hl.observe b)
  · exact .replying ((hl.observe b).withAcceptor _)

theorem answerAccept_serves (hl : l.Attended armed) :
    (l.answerAccept sender b s c).Serves armed := by
  unfold answerAccept
  dsimp only
  split
  · exact .replying (hl.observe b)
  · exact .replying ((hl.observe b).withAcceptor _)

theorem absorb_requestGap {upTo : Slot} {requests : List Action}
    (h : l.requestGap sender upTo = .ok requests) : absorb armed requests = armed := by
  obtain ⟨start, _, h⟩ := bind_eq_ok_iff.1 h
  rw [pure_eq_ok_iff] at h
  subst h
  split
  · exact absorb_sendTo ..
  · rfl

theorem absorb_requestNextBatch {batch : List LogEntry} {requests : List Action}
    (h : l.requestNextBatch sender batch = .ok requests) : absorb armed requests = armed := by
  unfold requestNextBatch at h
  split at h
  · split at h
    · obtain ⟨start, _, rfl⟩ := map_eq_ok_iff.1 h
      exact absorb_sendTo ..
    · cases h
      rfl
  · cases h
    rfl

theorem onChosen_serves {e : LogEntry} (hl : l.Attended armed)
    (h : l.onChosen sender e = .ok q) : q.Serves armed := by
  obtain ⟨requests, hrequests, rfl⟩ := map_eq_ok_iff.1 h
  have hsilent : absorb armed requests = armed := by
    split at hrequests
    · exact absorb_requestGap hrequests
    · cases hrequests
      rfl
  refine Serves.after ?_
  rw [hsilent]
  exact afterLearning_serves (hl.learn e)

theorem Attended.learnAll {batch : List LogEntry} (h : l.Attended armed) :
    (batch.foldl ReplicatedLog.learn l).Attended armed := by
  induction batch generalizing l with
  | nil => exact h
  | cons e batch ih => exact ih (h.learn e)

theorem onCatchUpResponse_serves {batch : List LogEntry} (hl : l.Attended armed)
    (h : l.onCatchUpResponse sender batch = .ok q) : q.Serves armed := by
  obtain ⟨requests, hrequests, rfl⟩ := map_eq_ok_iff.1 h
  refine Serves.after ?_
  rw [absorb_requestNextBatch hrequests]
  exact afterLearning_serves hl.learnAll

theorem onCatchUpRequest_serves {start : Slot} (hl : l.Attended armed) :
    (l.onCatchUpRequest sender start).Serves armed := by
  unfold onCatchUpRequest
  dsimp only
  split
  · exact .done hl
  · exact .replying hl

theorem onMessage_serves {m : Message} (hl : l.Attended armed) (h : l.onMessage sender m = .ok q) :
    q.Serves armed := by
  unfold onMessage at h
  split at h
  · cases m with
    | prepare b s =>
        cases h
        exact answerPrepare_serves hl
    | promise b s accepted =>
        cases accepted with
        | none => exact onPromise_serves hl h
        | some vote => exact onPromise_serves (hl.observe vote.1) h
    | accept b s c =>
        cases h
        exact answerAccept_serves hl
    | accepted b s =>
        cases h
        exact onAcceptance_serves hl
    | nack b s promised => exact onRefusal_serves hl h
    | chosen e => exact onChosen_serves hl h
    | catchUpRequest start =>
        cases h
        exact onCatchUpRequest_serves hl
    | catchUpResponse batch => exact onCatchUpResponse_serves hl h
  · cases h
    exact .done hl

/-! ### Timers that run out -/

theorem onTimer_of_unarmed (hl : l.Attended armed) (ht : t ∉ armed) :
    l.onTimer t = { log := l } := by
  unfold onTimer
  split
  · rfl
  · next p current =>
    rw [hl.eq_of_active current, Finset.mem_singleton] at ht
    cases t with
    | attempt n => exact if_neg fun hcur => ht (Proposal.timer_eq_attempt_iff.1 hcur).symm
    | retry n => exact if_neg fun hcur => ht (Proposal.timer_eq_retry_iff.1 hcur).symm

/-- A timer that is armed is not stale: it ends the attempt or the pause that it was set for. -/
theorem onTimer_of_armed (hl : l.Attended armed) (ht : t ∈ armed) : ∃ p, l.active = some p ∧
    t.number = p.attempt ∧ (l.onTimer t = { log := l, due := some .charged } ∨
      l.onTimer t = l.complete p (.error (.quorumUnavailable p.attempts))) := by
  cases current : l.active with
  | none =>
      rw [hl.eq_timers, timers_of_idle current] at ht
      cases ht
  | some p =>
      rw [hl.eq_of_active current, Finset.mem_singleton] at ht
      refine ⟨p, rfl, ht ▸ p.number_timer, ?_⟩
      unfold onTimer
      rw [current]
      cases t with
      | attempt n =>
          dsimp only
          rw [if_pos (Proposal.timer_eq_attempt_iff.2 ht.symm)]
          split
          · exact .inr rfl
          · exact .inl rfl
      | retry n => exact .inl (if_pos (Proposal.timer_eq_retry_iff.2 ht.symm))

theorem onTimer_serves (hl : l.Attended armed) : (l.onTimer t).Serves (armed.erase t) := by
  by_cases ht : t ∈ armed
  · obtain ⟨p, current, _, hends⟩ := onTimer_of_armed hl ht
    have hnumber : ∀ t' ∈ armed.erase t, t'.number = p.attempt := fun t' ht' =>
      hl.number_eq current t' (Finset.mem_of_mem_erase ht')
    rcases hends with hends | hends
    · rw [hends]
      exact .due current hnumber .charged
    · rw [hends]
      exact complete_serves hnumber _
  · rw [onTimer_of_unarmed hl ht, Finset.erase_eq_of_notMem ht]
    exact .done hl

/-! ### Whole calls -/

/-- The timers that are armed when a call comes.  The one that ran out is not any more. -/
def Call.unfired (armed : Finset Timer) : Call → Finset Timer
  | .expire t => armed.erase t
  | _ => armed

theorem begun_serves (harmed : armed = l.timers) : l.begun.Serves armed := by
  unfold begun
  split
  · next busy => exact .done ⟨harmed, fun idle => (by simp [idle] at busy)⟩
  · next idle =>
    have idle : l.active = none := by simpa using idle
    rw [harmed, timers_of_idle idle]
    exact promote_serves idle

theorem propose_attended {id : ProposalId} (hl : l.Coherent) (hs : l.Settled)
    (ha : l.Attended armed) (h : l.propose c = .ok (l', id, actions)) :
    l'.Attended (absorb armed actions) := by
  obtain ⟨next, counted, _, hpursue⟩ := propose_eq_ok h
  have hsubmit : Move (fun _ _ => True) (· = c) l [] (l.submitted c next) := .submit rfl counted
  have hsubmitted : (l.submitted c next).Settled := hs
  have hfollows : Progress.Follows (fun _ _ => True) (· = c) _ (l.submitted c next).begun :=
    begun_follows hsubmitted
  exact pursue_attended ((hl.move hsubmit).moves hfollows.moves) (begun_serves ha.eq_timers)
    hpursue

theorem answer_attended (hl : l.Coherent) (hs : l.Settled) (ha : l.Attended armed)
    (h : l.answer call = .ok reply) :
    reply.log.Attended (absorb (call.unfired armed) reply.actions) := by
  cases call with
  | propose c =>
      obtain ⟨⟨log, id, actions⟩, hpropose, rfl⟩ := map_eq_ok_iff.1 h
      exact propose_attended hl hs ha hpropose
  | deliver sender m =>
      obtain ⟨⟨log, actions⟩, hhandle, rfl⟩ := map_eq_ok_iff.1 h
      obtain ⟨q, hq, hpursue⟩ := bind_eq_ok_iff.1 hhandle
      have hfollows : Progress.Follows (fun _ _ => True) (fun _ => True) l q :=
        onMessage_follows hl hs trivial hq
      exact pursue_attended (hl.moves hfollows.moves) (onMessage_serves ha hq) hpursue
  | expire t =>
      obtain ⟨⟨log, actions⟩, hpursue, rfl⟩ := map_eq_ok_iff.1 h
      have hfollows : Progress.Follows (fun _ _ => True) (fun _ => True) l (l.onTimer t) :=
        onTimer_follows hs
      exact pursue_attended (hl.moves hfollows.moves) (onTimer_serves ha) hpursue
  | drainApplicable =>
      obtain ⟨⟨log, ready⟩, hdrain, rfl⟩ := map_eq_ok_iff.1 h
      obtain ⟨stop, _, rfl⟩ := drainApplicable_eq_ok hdrain
      exact ha.of_frame rfl rfl
  | requestCatchUp =>
      obtain ⟨said, hrequest, rfl⟩ := map_eq_ok_iff.1 h
      obtain ⟨start, _, hsaid⟩ := bind_eq_ok_iff.1 hrequest
      cases hsaid
      show l.Attended (absorb armed (l.sendToPeers _))
      rw [absorb_sendToPeers]
      exact ha
  | takeCompletions =>
      cases h
      exact ha.of_frame rfl rfl
  | repartition partition =>
      cases h
      exact ha.of_frame rfl rfl

/-- What has become of a log, and of its timers, by the calls since it was set up. -/
inductive Timed (topology : Topology) (policy : ConsensusPolicy) :
    ReplicatedLog → Finset Timer → Prop
  | fresh : Timed topology policy { topology := topology, policy := policy } ∅
  | call {l : ReplicatedLog} {armed : Finset Timer} {call : Call} {reply : Reply}
      (earlier : Timed topology policy l armed) (answered : l.answer call = .ok reply) :
      Timed topology policy reply.log (absorb (call.unfired armed) reply.actions)

variable {topology : Topology} {policy : ConsensusPolicy}

theorem Timed.attended (h : Timed topology policy l armed) :
    l.Coherent ∧ l.Settled ∧ l.Attended armed := by
  induction h with
  | fresh => exact ⟨coherent_fresh _ _, settled_of_idle rfl, rfl, fun _ => rfl⟩
  | call earlier answered ih =>
      obtain ⟨hl, hs, ha⟩ := ih
      have hanswered : Moves (fun _ _ => True) (fun _ => True) _ _ _ _ ∧ Settled _ :=
        answer_moves hl hs (fun _ _ _ => trivial) (fun _ _ => trivial) answered
      obtain ⟨hmoves, hs'⟩ := hanswered
      exact ⟨hl.moves hmoves, hs', answer_attended hl hs ha answered⟩

/-- After every call the armed timers are that of the active proposal, if there is one: the timer of
its attempt, or in a pause the one that ends it.  Without an active proposal nothing waits.  So a
timer that runs out is never stale: it has another attempt begun, or its proposal given up. -/
theorem armed_timers_exact (h : Timed topology policy l armed) :
    armed = l.timers ∧ (l.active = none → l.waiting = []) ∧
      ∀ t ∈ armed, ∃ p, l.active = some p ∧ t.number = p.attempt ∧
        (l.onTimer t = { log := l, due := some .charged } ∨
          l.onTimer t = l.complete p (.error (.quorumUnavailable p.attempts))) := by
  obtain ⟨_, _, ha⟩ := h.attended
  exact ⟨ha.eq_timers, ha.idle, fun t ht => onTimer_of_armed ha ht⟩

/-- After an attempt that ran out of time and a refusal of the next, a log waits for its pause to
end. -/
theorem armed_timers_exact_pair : ∃ l armed, Timed (Group.pair.topology ⟨1⟩) {} l armed ∧
    armed = {.retry 1} ∧ armed = l.timers ∧ (l.active = none → l.waiting = []) ∧
      ∀ t ∈ armed, ∃ p, l.active = some p ∧ t.number = p.attempt ∧
        (l.onTimer t = { log := l, due := some .charged } ∨
          l.onTimer t = l.complete p (.error (.quorumUnavailable p.attempts))) := by
  obtain ⟨reply, hanswer, reply', hanswer', reply'', hanswer'', htimers⟩ : ∃ reply,
      ReplicatedLog.answer { topology := Group.pair.topology ⟨1⟩, policy := {} }
          (.propose (.commit ⟨7⟩)) = .ok reply ∧
        ∃ reply', reply.log.answer (.expire (.attempt 0)) = .ok reply' ∧
        ∃ reply'', reply'.log.answer (.deliver ⟨2⟩ (.nack ⟨2, ⟨1⟩⟩ .first ⟨3, ⟨2⟩⟩)) = .ok reply'' ∧
          reply''.log.timers = {.retry 1} :=
    ⟨_, rfl, _, rfl, _, rfl, rfl⟩
  have hrun := Timed.call (.call (.call .fresh hanswer) hanswer') hanswer''
  obtain ⟨hexact, hrest⟩ := armed_timers_exact hrun
  exact ⟨_, _, hrun, hexact.trans htimers, hexact, hrest⟩

end ReplicatedLog

end ReplicatedLedger
