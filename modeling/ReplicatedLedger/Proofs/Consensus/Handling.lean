import ReplicatedLedger.Proofs.Consensus.Backlog

/-!
Every step of a log is a chain of moves, and leaves the log settled.
-/

namespace ReplicatedLedger

namespace ReplicatedLog

open Progress (Follows)

variable {heard : ReplicaId → Message → Prop} {wanted : Command → Prop} {l l' : ReplicatedLog}
  {q : Progress} {actions : List Action} {sender : ReplicaId} {s : Slot} {b : Ballot} {c : Command}

/-! ### Attempts that are due -/

theorem Progress.eq_of_due (h : q.due = none) : q = { log := q.log, actions := q.actions } := by
  cases q
  cases h
  rfl

/-- What holds of a stretch, and still holds when an attempt that is due has been begun, holds once
no attempt is due.  The limit is never what ends a step: the backlog shrinks with every attempt. -/
theorem pursueUpTo_induction {P : Progress → Prop} {limit : Nat}
    (attempt : ∀ q charge q', P q → q.due = some charge → q.log.beginAttempt charge = .ok q' →
      P (.after q.actions q'))
    (hl : q.log.Coherent) (hq : P q) (bound : q.due = none ∨ q.log.backlog < limit)
    (h : pursueUpTo limit q = .ok (l', actions)) : P { log := l', actions := actions } := by
  induction limit generalizing q with
  | zero =>
      -- no backlog is below zero, so nothing is due when the limit is reached
      cases h
      exact Progress.eq_of_due (bound.resolve_right (Nat.not_lt_zero _)) ▸ hq
  | succ limit ih =>
      unfold pursueUpTo at h
      split at h
      · next hdue =>
        cases h
        exact Progress.eq_of_due hdue ▸ hq
      · next charge hdue =>
        obtain ⟨q', hq', h⟩ := bind_eq_ok_iff.1 h
        have hbound : q.log.backlog < limit + 1 := bound.resolve_left (by simp [hdue])
        have hfollows : Follows (fun _ _ => True) (fun _ => True) q.log q' :=
          beginAttempt_follows hq'
        refine ih (q := .after q.actions q') (hl.moves hfollows.moves)
          (attempt q charge q' hq hdue hq') ?_ h
        refine (beginAttempt_backlog hl hq').imp_right fun hless => ?_
        show q'.log.backlog < limit
        omega

theorem pursue_induction {P : Progress → Prop}
    (attempt : ∀ q charge q', P q → q.due = some charge → q.log.beginAttempt charge = .ok q' →
      P (.after q.actions q'))
    (hl : q.log.Coherent) (hq : P q) (h : pursue q = .ok (l', actions)) :
    P { log := l', actions := actions } :=
  pursueUpTo_induction attempt hl hq (.inr (Nat.lt_succ_self _)) h

theorem pursue_follows (hl : l.Coherent) (hq : Follows heard wanted l q)
    (h : pursue q = .ok (l', actions)) :
    Follows heard wanted l { log := l', actions := actions } := by
  refine pursue_induction (fun q charge q' hq _ hq' => ?_) (hl.moves hq.moves) hq h
  exact hq.trans (beginAttempt_follows hq')

/-! ### Messages and timers -/

theorem answerPrepare_follows (hl : l.Coherent) (hs : l.Settled) :
    Follows heard wanted l (l.answerPrepare sender b s) := by
  unfold answerPrepare
  refine Follows.move (.observe b) (keeps_observe _ _) ⟨rfl, rfl⟩ ?_
  have hs' : (l.observe b).Settled := hs
  dsimp only
  split
  · next e known => exact .replying hs' (hl.maySay_chosen known) ⟨rfl, rfl⟩
  · next opened =>
    cases hprepare : (l.observe b).acceptor.prepare s b with
    | mk acceptor answer =>
      cases answer with
      | ok accepted =>
          refine Follows.move (.promise opened hprepare) (keeps_withAcceptor _ _) ⟨rfl, rfl⟩ ?_
          exact .replying hs' (maySay_promise opened hprepare) ⟨rfl, rfl⟩
      | error promised =>
          obtain ⟨rfl, hlt⟩ := Acceptor.prepare_eq_error hprepare
          exact .replying hs' hlt ⟨rfl, rfl⟩

theorem answerAccept_follows (hl : l.Coherent) (hs : l.Settled)
    (told : heard sender (.accept b s c)) :
    Follows heard wanted l (l.answerAccept sender b s c) := by
  unfold answerAccept
  refine Follows.move (.observe b) (keeps_observe _ _) ⟨rfl, rfl⟩ ?_
  have hs' : (l.observe b).Settled := hs
  dsimp only
  split
  · next e known => exact .replying hs' (hl.maySay_chosen known) ⟨rfl, rfl⟩
  · next opened =>
    cases haccept : (l.observe b).acceptor.accept s b c with
    | mk acceptor answer =>
      cases answer with
      | ok _ =>
          refine Follows.move (.vote opened (.inl told) haccept) (keeps_withAcceptor _ _)
            ⟨rfl, rfl⟩ ?_
          exact .replying hs' (maySay_accepted haccept) ⟨rfl, rfl⟩
      | error promised =>
          obtain ⟨rfl, hlt⟩ := Acceptor.accept_eq_error haccept
          exact .replying hs' hlt ⟨rfl, rfl⟩

theorem requestGap_harmless {upTo : Slot} {requests : List Action}
    (h : l.requestGap sender upTo = .ok requests) : l.Tells requests := by
  obtain ⟨start, _, h⟩ := bind_eq_ok_iff.1 h
  rw [pure_eq_ok_iff] at h
  subst h
  have harmless : l.MaySay (.catchUpRequest start) := trivial
  split
  · exact tells_sendTo harmless ⟨rfl, rfl⟩
  · exact ⟨by simp, by simp, by simp⟩

theorem onChosen_follows {e : LogEntry} (told : heard sender (.chosen e))
    (h : l.onChosen sender e = .ok q) : Follows heard wanted l q := by
  obtain ⟨requests, hrequests, rfl⟩ := map_eq_ok_iff.1 h
  refine Follows.move (.hear told (List.mem_singleton.2 rfl)) (keeps_learn _ _)
    (samePlace_learn _ _) ?_
  refine (afterLearning_follows _).after ?_
  split at hrequests
  · exact requestGap_harmless hrequests
  · cases hrequests
    exact ⟨by simp, by simp, by simp⟩

theorem onCatchUpRequest_follows {start : Slot} (hl : l.Coherent) (hs : l.Settled) :
    Follows heard wanted l (l.onCatchUpRequest sender start) := by
  unfold onCatchUpRequest
  dsimp only
  split
  · exact .refl hs
  · refine .replying hs ?_ ⟨rfl, rfl⟩
    intro e he
    obtain ⟨⟨k, e'⟩, hpair, rfl⟩ := List.mem_map.1 he
    have hmem := (List.mem_filter.1 (List.mem_of_mem_take hpair)).1
    exact hl.maySay_chosen (SortedMap.get?_eq_some_iff.2 hmem)

/-- A batch is learned entry by entry. -/
theorem follows_foldl_learn {m : Message} {batch : List LogEntry} (told : heard sender m)
    (carried : ∀ e ∈ batch, e ∈ m.entries) (hq : Follows heard wanted (batch.foldl learn l) q) :
    Follows heard wanted l q := by
  induction batch generalizing l with
  | nil => exact hq
  | cons e batch ih =>
      have hlearned : Follows heard wanted (l.learn e) q :=
        ih (fun e' he' => carried e' (List.mem_cons_of_mem _ he')) hq
      exact hlearned.move (.hear told (carried e List.mem_cons_self)) (keeps_learn _ _)
        (samePlace_learn _ _)

theorem requestNextBatch_harmless {batch : List LogEntry} {requests : List Action}
    (h : l.requestNextBatch sender batch = .ok requests) : l.Tells requests := by
  unfold requestNextBatch at h
  split at h
  · split at h
    · obtain ⟨start, _, rfl⟩ := map_eq_ok_iff.1 h
      have harmless : l.MaySay (.catchUpRequest start) := trivial
      exact tells_sendTo harmless ⟨rfl, rfl⟩
    · cases h
      exact ⟨by simp, by simp, by simp⟩
  · cases h
    exact ⟨by simp, by simp, by simp⟩

theorem onCatchUpResponse_follows {batch : List LogEntry}
    (told : heard sender (.catchUpResponse batch))
    (h : l.onCatchUpResponse sender batch = .ok q) : Follows heard wanted l q := by
  obtain ⟨requests, hrequests, rfl⟩ := map_eq_ok_iff.1 h
  refine follows_foldl_learn told (fun e he => he) ?_
  exact (afterLearning_follows _).after (requestNextBatch_harmless hrequests)

theorem onMessage_follows {m : Message} (hl : l.Coherent) (hs : l.Settled)
    (told : heard sender m) (h : l.onMessage sender m = .ok q) : Follows heard wanted l q := by
  unfold onMessage at h
  split at h
  · cases m with
    | prepare b s =>
        cases h
        exact answerPrepare_follows hl hs
    | promise b s accepted =>
        cases accepted with
        | none => exact onPromise_follows hs (.inl told) h
        | some vote =>
            have hfollows : Follows heard wanted (l.observe vote.1) q :=
              onPromise_follows hs (.inl told) h
            exact hfollows.move (.observe _) (keeps_observe _ _) ⟨rfl, rfl⟩
    | accept b s c =>
        cases h
        exact answerAccept_follows hl hs told
    | accepted b s =>
        cases h
        exact onAcceptance_follows hs (.inl told)
    | nack b s promised => exact onRefusal_follows hs h
    | chosen e => exact onChosen_follows told h
    | catchUpRequest start =>
        cases h
        exact onCatchUpRequest_follows hl hs
    | catchUpResponse batch => exact onCatchUpResponse_follows told h
  · cases h
    exact .refl hs

theorem onTimer_follows {t : Timer} (hs : l.Settled) : Follows heard wanted l (l.onTimer t) := by
  unfold onTimer
  split
  · exact .refl hs
  · next p current =>
    split
    · split
      · split
        · exact complete_error_follows current rfl
        · exact .due l .charged
      · exact .refl hs
    · split
      · exact .due l .charged
      · exact .refl hs

/-! ### Whole steps -/

theorem handle_follows {e : Event} (hl : l.Coherent) (hs : l.Settled)
    (told : ∀ sender m, e = .message sender m → heard sender m)
    (h : l.handle e = .ok (l', actions)) :
    Follows heard wanted l { log := l', actions := actions } := by
  cases e with
  | timer t => exact pursue_follows hl (onTimer_follows hs) h
  | message sender m =>
      obtain ⟨q, hq, h⟩ := bind_eq_ok_iff.1 h
      exact pursue_follows hl (onMessage_follows hl hs (told sender m rfl) hq) h
  | request id request =>
      cases h
      exact .refl hs

theorem handle_moves {e : Event} (hl : l.Coherent) (hs : l.Settled)
    (told : ∀ sender m, e = .message sender m → heard sender m)
    (h : l.handle e = .ok (l', actions)) : Moves heard wanted l actions [] l' ∧ l'.Settled := by
  have hfollows : Follows heard wanted l _ := handle_follows hl hs told h
  exact ⟨hfollows.moves, hfollows.settled rfl⟩

/-- How far a submission comes before any attempt. -/
def begun (l : ReplicatedLog) : Progress := if l.active.isSome then { log := l } else l.promote

theorem begun_follows (hs : l.Settled) : Follows heard wanted l l.begun := by
  unfold begun
  split
  · exact .refl hs
  · next idle => exact promote_follows (by simpa using idle)

theorem propose_eq_ok {id : ProposalId} (h : l.propose c = .ok (l', id, actions)) :
    ∃ next, Word.sum l.nextProposal 1 = .ok next ∧ id = ⟨l.nextProposal⟩ ∧
      pursue (l.submitted c next).begun = .ok (l', actions) := by
  unfold propose at h
  obtain ⟨next, counted, h⟩ := bind_eq_ok_iff.1 h
  obtain ⟨⟨log, said⟩, hpursue, h⟩ := bind_eq_ok_iff.1 h
  cases h
  exact ⟨next, counted, rfl, hpursue⟩

theorem propose_follows {id : ProposalId} (hl : l.Coherent) (hs : l.Settled)
    (h : l.propose c = .ok (l', id, actions)) :
    ∃ next, Word.sum l.nextProposal 1 = .ok next ∧
      Follows heard wanted (l.submitted c next) { log := l', actions := actions } := by
  obtain ⟨next, counted, _, hpursue⟩ := propose_eq_ok h
  have hsubmit : Move (fun _ _ => False) (· = c) l [] (l.submitted c next) := .submit rfl counted
  have hsubmitted : (l.submitted c next).Settled := hs
  exact ⟨next, counted, pursue_follows (hl.move hsubmit) (begun_follows hsubmitted) hpursue⟩

theorem propose_moves {id : ProposalId} (hl : l.Coherent) (hs : l.Settled) (due : wanted c)
    (h : l.propose c = .ok (l', id, actions)) :
    Moves heard wanted l actions [] l' ∧ l'.Settled := by
  obtain ⟨next, counted, hfollows⟩ := propose_follows hl hs h
  exact ⟨.move (.submit due counted) hfollows.moves, hfollows.settled rfl⟩

theorem requestCatchUp_tells (h : l.requestCatchUp = .ok actions) : l.Tells actions := by
  obtain ⟨start, _, h⟩ := bind_eq_ok_iff.1 h
  cases h
  have harmless : l.MaySay (.catchUpRequest start) := trivial
  exact tells_sendToPeers harmless ⟨rfl, rfl⟩

theorem requestCatchUp_moves (h : l.requestCatchUp = .ok actions) :
    Moves heard wanted l actions [] l :=
  Moves.saying (requestCatchUp_tells h).truthful

theorem drainApplicable_eq_ok {ready : List LogEntry} (h : l.drainApplicable = .ok (l', ready)) :
    ∃ stop, drainFrom l.nextApply l.chosen.toList = .ok (stop, ready) ∧
      l' = { l with nextApply := stop } := by
  obtain ⟨⟨stop, ready'⟩, hdrain, h⟩ := bind_eq_ok_iff.1 h
  cases h
  exact ⟨stop, hdrain, rfl⟩

theorem drainApplicable_moves {ready : List LogEntry} (hs : l.Settled)
    (h : l.drainApplicable = .ok (l', ready)) : Moves heard wanted l [] ready l' ∧ l'.Settled := by
  obtain ⟨stop, hdrain, rfl⟩ := drainApplicable_eq_ok h
  exact ⟨(Move.handOut hdrain).single, hs⟩

/-! ### Silence towards clients -/

theorem handle_wordless {e : Event} (hl : l.Coherent) (hs : l.Settled)
    (h : l.handle e = .ok (l', actions)) :
    ∀ id response, Action.respond id response ∉ actions := by
  have hfollows : Follows (fun _ _ => True) (fun _ => False) l _ :=
    handle_follows hl hs (fun _ _ _ => trivial) h
  exact hfollows.wordless

theorem propose_wordless {id : ProposalId} (hl : l.Coherent) (hs : l.Settled)
    (h : l.propose c = .ok (l', id, actions)) :
    ∀ id response, Action.respond id response ∉ actions := by
  obtain ⟨next, _, hfollows⟩ : ∃ next, _ ∧
      Follows (fun _ _ => False) (fun _ => False) (l.submitted c next) _ := propose_follows hl hs h
  exact hfollows.wordless

theorem requestCatchUp_wordless (h : l.requestCatchUp = .ok actions) :
    ∀ id response, Action.respond id response ∉ actions :=
  (requestCatchUp_tells h).wordless

/-! ### Peers that are not reached -/

theorem hears_iff : l.hears sender = true ↔
    sender = l.replica ∨ sender ∈ l.topology.group ∧ l.partition.reaches sender = true := by
  unfold hears Topology.isMember
  simp

theorem hears_eq_false_iff : l.hears sender = false ↔ sender ≠ l.replica ∧
    (sender ∉ l.topology.group ∨ l.partition.reaches sender = false) := by
  rw [← Bool.not_eq_true, hears_iff, not_or, not_and_or, Bool.not_eq_true]

/-- The log does not hear a stranger. -/
theorem handle_of_unheard {m : Message} (h : l.hears sender = false) :
    l.handle (.message sender m) = .ok (l, []) := by
  have hmessage : l.onMessage sender m = .ok { log := l } := by
    unfold onMessage
    rw [h]
    rfl
  show (do pursue (← l.onMessage sender m)) = _
  rw [hmessage]
  rfl

/-- A step sends nothing but to those that the replica reaches, then and after it. -/
theorem handle_reachable {e : Event} (hl : l.Coherent) (hs : l.Settled)
    (h : l.handle e = .ok (l', actions)) :
    ∀ receiver m, Action.send receiver m ∈ actions → l'.Reaches receiver := by
  have hfollows : Follows (fun _ _ => True) (fun _ => False) l _ :=
    handle_follows hl hs (fun _ _ _ => trivial) h
  exact fun receiver m hm => hfollows.place.reaches_iff.2 (hfollows.reachable receiver m hm)

theorem propose_reachable {id : ProposalId} (hl : l.Coherent) (hs : l.Settled)
    (h : l.propose c = .ok (l', id, actions)) :
    ∀ receiver m, Action.send receiver m ∈ actions → l'.Reaches receiver := by
  obtain ⟨next, _, hfollows⟩ : ∃ next, _ ∧
      Follows (fun _ _ => False) (fun _ => False) (l.submitted c next) _ := propose_follows hl hs h
  exact fun receiver m hm => hfollows.place.reaches_iff.2 (hfollows.reachable receiver m hm)

end ReplicatedLog

end ReplicatedLedger
