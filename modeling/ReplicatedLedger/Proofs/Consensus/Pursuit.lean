import ReplicatedLedger.Proofs.Consensus.Completion
import ReplicatedLedger.Proofs.Consensus.Learning

/-!
The attempts of a call, one after another.  A call does what it can without an attempt, and then
begins attempts until none is due.  This comes to an end: an attempt that leaves another one due has
completed a proposal, or has decided a slot on which the own acceptor held a vote.
-/

namespace ReplicatedLedger

namespace ReplicatedLog

/-- How far a call comes before any attempt that it makes due. -/
def opening (l : ReplicatedLog) : Call → Except Fault Progress
  | .propose c => (fun next => (l.submitted c next).begun) <$> Word.sum l.nextProposal 1
  | .deliver sender m => l.onMessage sender m
  | .expire t => .ok (l.onTimer t)
  | call => (fun reply => { log := reply.log, actions := reply.actions }) <$> l.answer call

namespace Progress

/-- The attempts that lead from one stretch of a step to another, by the logs on which they are
begun. -/
inductive Pursuit : Progress → List ReplicatedLog → Progress → Prop
  | rest (q : Progress) : Pursuit q [] q
  | attempt {q q' q'' : Progress} {charge : Charge} {starts : List ReplicatedLog}
      (due : q.due = some charge) (begun : q.log.beginAttempt charge = .ok q')
      (later : Pursuit (.after q.actions q') starts q'') : Pursuit q (q.log :: starts) q''

/-- How attempts come to an end, with what the step returns: none is due any more, or the one that
is due meets a fault. -/
inductive Ends (q : Progress) : Except Fault (ReplicatedLog × List Action) → Prop
  | done (done : q.due = none) : Ends q (.ok (q.log, q.actions))
  | fault {charge : Charge} {fault : Fault} (due : q.due = some charge)
      (failed : q.log.beginAttempt charge = .error fault) : Ends q (.error fault)

/-- The logs on which attempts are begun from a stretch on, at most `limit` of them. -/
def startsUpTo : Nat → Progress → List ReplicatedLog
  | 0, _ => []
  | limit + 1, q =>
    match q.due with
    | none => []
    | some charge =>
      match q.log.beginAttempt charge with
      | .ok q' => q.log :: startsUpTo limit (.after q.actions q')
      | .error _ => []

/-- The logs on which attempts are begun until none is due. -/
def starts (q : Progress) : List ReplicatedLog := startsUpTo q.log.attemptBound q

end Progress

open Progress (Follows Pursuit Ends)

variable {heard : ReplicaId → Message → Prop} {l l' : ReplicatedLog} {q q' : Progress} {call : Call}
  {calls : List Call} {reply : Reply} {starts : List ReplicatedLog} {limit : Nat} {c : Command}
  {docket : List Submission} {handed : List Completion} {actions : List Action}
  {ready given : List LogEntry} {topology : Topology} {policy : ConsensusPolicy}

/-- A call is its opening, followed by the attempts that are then due. -/
theorem answer_eq_pursue (l : ReplicatedLog) (call : Call) :
    (fun reply => (reply.log, reply.actions)) <$> l.answer call = l.opening call >>= pursue := by
  have pursued : ∀ q : Progress, q.due = none → Except.ok (q.log, q.actions) = pursue q :=
    fun q done => (pursue_of_done done).symm
  cases call with
  | propose c =>
      show _ <$> (_ <$> (Word.sum l.nextProposal 1 >>= fun next =>
        pursue (l.submitted c next).begun >>= _)) = (_ <$> Word.sum l.nextProposal 1) >>= pursue
      cases Word.sum l.nextProposal 1 with
      | error fault => rfl
      | ok next =>
          show _ <$> (_ <$> (pursue (l.submitted c next).begun >>= _)) =
            pursue (l.submitted c next).begun
          cases pursue (l.submitted c next).begun <;> rfl
  | deliver sender m =>
      show _ <$> (_ <$> (l.onMessage sender m >>= pursue)) = l.onMessage sender m >>= pursue
      cases l.onMessage sender m with
      | error fault => rfl
      | ok q =>
          show _ <$> (_ <$> pursue q) = pursue q
          cases pursue q <;> rfl
  | expire t =>
      show _ <$> (_ <$> pursue (l.onTimer t)) = pursue (l.onTimer t)
      cases pursue (l.onTimer t) <;> rfl
  | drainApplicable | requestCatchUp | takeCompletions | repartition =>
      show _ = (_ <$> l.answer _) >>= pursue
      cases l.answer _ with
      | error fault => rfl
      | ok reply => exact pursued { log := reply.log, actions := reply.actions } rfl

/-! ### The last attempt -/

namespace Progress.Pursuit

theorem eq_nil_of_done (h : q.Pursuit starts q') (done : q.due = none) : starts = [] := by
  cases h with
  | rest => rfl
  | attempt due =>
      rw [done] at due
      cases due

/-- Every attempt but the last makes the backlog smaller. -/
theorem length_le (h : q.Pursuit starts q') (hl : q.log.Coherent) :
    starts.length ≤ q.log.backlog + 1 := by
  induction h with
  | rest => exact Nat.zero_le _
  | @attempt q q' q'' charge starts due begun later ih =>
      rw [List.length_cons]
      rcases beginAttempt_backlog hl begun with hdone | hless
      · rw [later.eq_nil_of_done hdone]
        exact Nat.le_add_left ..
      · have hfollows : Follows (fun _ _ => True) (fun _ => True) q.log q' :=
          beginAttempt_follows begun
        have hlater : starts.length ≤ q'.log.backlog + 1 := ih (hl.moves hfollows.moves)
        omega

end Progress.Pursuit

/-- Attempts are begun until none is due, or until one meets a fault: the limit on their number is
out of reach. -/
theorem exists_pursuitUpTo (hl : q.log.Coherent) (bound : q.due = none ∨ q.log.backlog < limit) :
    ∃ q', q.Pursuit (Progress.startsUpTo limit q) q' ∧ q'.Ends (pursueUpTo limit q) := by
  induction limit generalizing q with
  | zero => exact ⟨q, .rest q, .done (bound.resolve_right (Nat.not_lt_zero _))⟩
  | succ limit ih =>
      unfold Progress.startsUpTo pursueUpTo
      cases due : q.due with
      | none => exact ⟨q, .rest q, .done due⟩
      | some charge =>
          dsimp only
          have hbound : q.log.backlog < limit + 1 := bound.resolve_left (by simp [due])
          cases begun : q.log.beginAttempt charge with
          | error fault => exact ⟨q, .rest q, .fault due begun⟩
          | ok q' =>
              have hfollows : Follows (fun _ _ => True) (fun _ => True) q.log q' :=
                beginAttempt_follows begun
              have hless := (beginAttempt_backlog hl begun).imp_right
                fun hless => Nat.lt_of_lt_of_le hless (Nat.le_of_lt_succ hbound)
              obtain ⟨q'', hlater, hends⟩ :=
                ih (q := .after q.actions q') (hl.moves hfollows.moves) hless
              exact ⟨q'', .attempt due begun hlater, hends⟩

theorem exists_pursuit (hl : q.log.Coherent) :
    ∃ q', q.Pursuit q.starts q' ∧ q'.Ends (pursue q) :=
  exists_pursuitUpTo hl (.inr (Nat.lt_succ_self _))

theorem opening_moves (hl : l.Coherent) (hs : l.Settled) (h : l.opening call = .ok q) :
    ∃ ready, Moves (fun _ _ => True) (fun _ => True) l q.actions ready q.log := by
  cases call with
  | propose c =>
      obtain ⟨next, counted, rfl⟩ := map_eq_ok_iff.1 h
      have hfollows : Follows (fun _ _ => True) (fun _ => True) _ (l.submitted c next).begun :=
        begun_follows (show (l.submitted c next).Settled from hs)
      exact ⟨_, .move (.submit trivial counted) hfollows.moves⟩
  | deliver sender m =>
      have hfollows : Follows (fun _ _ => True) (fun _ => True) l q :=
        onMessage_follows hl hs trivial h
      exact ⟨_, hfollows.moves⟩
  | expire t =>
      cases h
      have hfollows : Follows (fun _ _ => True) (fun _ => True) l (l.onTimer t) :=
        onTimer_follows hs
      exact ⟨_, hfollows.moves⟩
  | _ =>
      obtain ⟨reply, hanswer, rfl⟩ := map_eq_ok_iff.1 h
      exact ⟨_, (answer_moves hl hs (fun _ _ _ => trivial) (fun _ _ => trivial) hanswer).1⟩

theorem opening_coherent (hl : l.Coherent) (hs : l.Settled) (h : l.opening call = .ok q) :
    q.log.Coherent := by
  obtain ⟨_, hmoves⟩ := opening_moves hl hs h
  exact hl.moves hmoves

/-! ### What a call completes -/

/-- What a log has yet to report: the completions that it still holds, and one for each pending
proposal. -/
def outstanding (l : ReplicatedLog) : Nat := l.completions.length + l.pendingProposals

theorem outstanding_congr (hcompletions : l'.completions = l.completions)
    (hpending : l'.pendingProposals = l.pendingProposals) : l'.outstanding = l.outstanding := by
  unfold outstanding
  rw [hcompletions, hpending]

/-- A log with no more outstanding than an earlier one.  Unless it is less, the completions of the
earlier one are still there. -/
def Reports (l l' : ReplicatedLog) : Prop :=
  l'.outstanding ≤ l.outstanding ∧
    (l'.outstanding = l.outstanding → l.completions <+: l'.completions)

theorem Reports.of_frame (hcompletions : l'.completions = l.completions)
    (hpending : l'.pendingProposals = l.pendingProposals) : l.Reports l' :=
  ⟨Nat.le_of_eq (outstanding_congr hcompletions hpending),
    fun _ => hcompletions ▸ List.prefix_refl _⟩

theorem Move.reports (h : Move heard (fun _ => False) l ready l') : l.Reports l' := by
  cases h with
  | hear | win =>
      refine .of_frame (completions_learn l _) ?_
      unfold pendingProposals
      rw [active_learn, waiting_learn]
  | submit due => exact due.elim
  | promote idle first =>
      refine .of_frame rfl ?_
      simp [pendingProposals, idle, first]
  | finish current found =>
      have hsame : ∀ x : Completion, (l.completions ++ [x]).length + (l.waiting.length + 0) =
          l.outstanding := by
        simp [outstanding, pendingProposals, current]
        omega
      exact ⟨Nat.le_of_eq (hsame _), fun _ => List.prefix_append ..⟩
  | pause current | countPromise current | ask current | countVote current =>
      exact .of_frame rfl (pendingProposals_congr rfl current rfl)
  | reopen attempts current => exact .of_frame rfl (pendingProposals_congr rfl current rfl)
  | handOver =>
      refine ⟨Nat.add_le_add_right (Nat.zero_le _) _, fun hsame => ?_⟩
      have hnone : l.completions = [] :=
        List.length_eq_zero_iff.1 (Nat.add_right_cancel hsame).symm
      exact hnone ▸ List.prefix_refl []
  | _ => exact .of_frame rfl rfl

theorem Moves.reports (h : Moves heard (fun _ => False) l actions ready l') : l.Reports l' := by
  induction h with
  | refl => exact .of_frame rfl rfl
  | move first _ ih =>
      obtain ⟨hle, hkept⟩ := first.reports
      refine ⟨Nat.le_trans ih.1 hle, fun hsame => ?_⟩
      have hfirst := Nat.le_antisymm hle (hsame ▸ ih.1)
      exact (hkept hfirst).trans (ih.2 (hsame.trans hfirst.symm))
  | say _ _ ih => exact ih

theorem outstanding_submitted (l : ReplicatedLog) (c : Command) (next : Word) :
    (l.submitted c next).outstanding = l.outstanding + 1 := by
  show l.completions.length + ((l.waiting ++ [_]).length + _) = _
  rw [List.length_append, Nat.add_right_comm l.waiting.length]
  rfl

theorem length_undecided (l : ReplicatedLog) : l.undecided.length = l.pendingProposals := by
  unfold undecided pendingProposals
  cases l.active with
  | none => rfl
  | some p => exact List.length_cons

theorem Completes.length_docket (h : l.Completes docket handed) :
    docket.length = handed.length + l.outstanding := by
  obtain ⟨ended, rfl, hended⟩ := h.exists_ended
  have hlength := hended.length_eq
  rw [List.length_append] at hlength
  rw [List.length_append, length_undecided, hlength, outstanding, Nat.add_assoc]

/-- Of what is outstanding nothing is lost: it is still outstanding, or handed over. -/
theorem outstanding_of_answer (hc : l.Completes docket handed) (hl : l.Coherent) (hs : l.Settled)
    (h : l.answer call = .ok reply) :
    reply.completions.length + reply.log.outstanding =
      l.outstanding + (call.submission? l).toList.length := by
  have hafter := (hc.answer hl hs h).1.length_docket
  rw [List.length_append, List.length_append, hc.length_docket] at hafter
  omega

/-- A call returns the completions that the log held, or keeps them, and adds others after them. -/
theorem prefix_of_answer (hc : l.Completes docket handed) (hl : l.Coherent) (hs : l.Settled)
    (h : l.answer call = .ok reply) :
    l.completions <+: reply.completions ++ reply.log.completions := by
  have hsame := outstanding_of_answer hc hl hs h
  cases call with
  | propose c =>
      obtain ⟨⟨log, id, actions⟩, hpropose, rfl⟩ := map_eq_ok_iff.1 h
      obtain ⟨next, _, hfollows⟩ : ∃ next, _ ∧
          Follows (fun _ _ => True) (fun _ => False) (l.submitted c next) _ :=
        propose_follows hl hs hpropose
      refine hfollows.moves.reports.2 ?_
      rw [outstanding_submitted]
      exact (Nat.zero_add _).symm.trans hsame
  | takeCompletions =>
      cases h
      exact List.prefix_append ..
  | _ =>
      have hsilent : Moves (fun _ _ => True) (fun _ => False) l _ _ reply.log ∧ reply.log.Settled :=
        answer_moves hl hs (fun _ _ _ => trivial) (fun _ hc => by cases hc) h
      obtain ⟨_, _, hnone⟩ := answer_keeps hl hs rfl (by simp) h
      rw [hnone, List.nil_append]
      rw [hnone] at hsame
      exact hsilent.1.reports.2 ((Nat.zero_add _).symm.trans hsame)

/-- What a log has reported after many calls. -/
theorem exists_completes (hl : l.Coherent) (hs : l.Settled) (hc : l.Completes docket handed)
    (h : l.answerAll calls = .ok (l', given)) :
    ∃ docket' handed', l'.Completes docket' handed' := by
  induction calls generalizing l docket handed given with
  | nil =>
      cases h
      exact ⟨docket, handed, hc⟩
  | cons call calls ih =>
      obtain ⟨reply, later, hanswer, hrest, rfl⟩ := answerAll_cons_eq_ok_iff.1 h
      have hmoves : Moves (fun _ _ => True) (fun _ => True) l _ _ reply.log ∧ reply.log.Settled :=
        answer_moves hl hs (fun _ _ _ => trivial) (fun _ _ => trivial) hanswer
      exact ih (hl.moves hmoves.1) hmoves.2 (hc.answer hl hs hanswer).1 hrest

/-! ### Calls -/

/-- How a call comes to an end. -/
structure Concludes (l : ReplicatedLog) (call : Call) : Prop where
  /-- A fault before any attempt is that of the call. -/
  faults : ∀ fault, l.opening call = .error fault → l.answer call = .error fault
  /-- No attempts, however they are begun one after another, are more than the pending proposals and
  the slots with an own vote, and one. -/
  bounded : ∀ q, l.opening call = .ok q → ∀ starts q', q.Pursuit starts q' →
    starts.length ≤ q.log.pendingProposals + q.log.acceptor.openSlots + 1
  /-- Attempts are begun until none is due, unless one meets a fault, and the call returns with the
  last of them. -/
  ended : ∀ q, l.opening call = .ok q → ∃ q', q.Pursuit q.starts q' ∧
    q'.Ends ((fun reply => (reply.log, reply.actions)) <$> l.answer call)
  /-- Each new completion is that of a proposal which was pending, or was submitted by the call, and
  is no longer pending. -/
  completed : ∀ reply, l.answer call = .ok reply → ∃ done,
    reply.completions ++ reply.log.completions = l.completions ++ done ∧
      done.length + reply.log.pendingProposals =
        l.pendingProposals + (call.submission? l).toList.length

/-- Whatever calls a log has answered, any further one comes to an end. -/
theorem calls_conclude
    (reached : answerAll { topology := topology, policy := policy } calls = .ok (l, given))
    (call : Call) : l.Concludes call := by
  obtain ⟨hl, hs, _⟩ := answerAll_moves (coherent_fresh _ _) (settled_of_idle rfl) reached
  obtain ⟨docket, handed, hc⟩ := exists_completes (coherent_fresh _ _) (settled_of_idle rfl)
    (completes_fresh _ _) reached
  refine ⟨fun fault h => ?_, fun q h starts q' hpursuit => ?_, fun q h => ?_, fun reply h => ?_⟩
  · have hanswer := l.answer_eq_pursue call
    rw [h] at hanswer
    cases hresult : l.answer call with
    | error fault' =>
        rw [hresult] at hanswer
        cases hanswer
        rfl
    | ok reply =>
        rw [hresult] at hanswer
        cases hanswer
  · exact hpursuit.length_le (opening_coherent hl hs h)
  · rw [answer_eq_pursue, h]
    exact exists_pursuit (opening_coherent hl hs h)
  · obtain ⟨done, hdone⟩ := prefix_of_answer hc hl hs h
    have hsame := outstanding_of_answer hc hl hs h
    have hlength := congrArg List.length hdone
    rw [List.length_append, List.length_append] at hlength
    unfold outstanding at hsame
    exact ⟨done, hdone.symm, by omega⟩

/-- A replica that serves its shard alone has voted for a command that it never chose.  Its own
proposal needs two attempts in one call: the first of them decides the slot for that command. -/
theorem calls_conclude_single : ∃ l q reply,
    answerAll { topology := (Group.single ⟨1⟩).topology ⟨1⟩, policy := {} }
        [.deliver ⟨1⟩ (.accept ⟨1, ⟨1⟩⟩ .first (.abort ⟨7⟩))] = .ok (l, []) ∧
      l.opening (.propose (.commit ⟨7⟩)) = .ok q ∧ q.starts.length = 2 ∧
      l.answer (.propose (.commit ⟨7⟩)) = .ok reply ∧
      reply.log.completions.map (·.result) = [.ok ⟨1⟩] ∧ l.Concludes (.propose (.commit ⟨7⟩)) := by
  obtain ⟨l, hreached, q, hopening, hstarts, reply, hanswer, hresults⟩ : ∃ l,
      answerAll { topology := (Group.single ⟨1⟩).topology ⟨1⟩, policy := {} }
          [.deliver ⟨1⟩ (.accept ⟨1, ⟨1⟩⟩ .first (.abort ⟨7⟩))] = .ok (l, []) ∧
        ∃ q, l.opening (.propose (.commit ⟨7⟩)) = .ok q ∧ q.starts.length = 2 ∧
        ∃ reply, l.answer (.propose (.commit ⟨7⟩)) = .ok reply ∧
          reply.log.completions.map (·.result) = [.ok ⟨1⟩] :=
    ⟨_, rfl, _, rfl, rfl, _, rfl, rfl⟩
  exact ⟨l, q, reply, hreached, hopening, hstarts, hanswer, hresults, calls_conclude hreached _⟩

/-- One message may complete all the proposals of a command, with the attempts between them. -/
example : ∃ l q reply,
    answerAll { topology := Group.pair.topology ⟨1⟩, policy := {} }
        [.propose (.commit ⟨7⟩), .propose (.commit ⟨7⟩), .propose (.commit ⟨7⟩)] = .ok (l, []) ∧
      l.opening (.deliver ⟨2⟩ (.chosen ⟨.first, ⟨1, ⟨2⟩⟩, .commit ⟨7⟩⟩)) = .ok q ∧
      q.starts.length = 2 ∧
      l.answer (.deliver ⟨2⟩ (.chosen ⟨.first, ⟨1, ⟨2⟩⟩, .commit ⟨7⟩⟩)) = .ok reply ∧
      reply.log.completions.map (·.result) = [.ok ⟨0⟩, .ok ⟨0⟩, .ok ⟨0⟩] :=
  ⟨_, _, _, rfl, rfl, rfl, rfl, rfl⟩

end ReplicatedLog

end ReplicatedLedger
