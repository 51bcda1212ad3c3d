import ReplicatedLedger.Proofs.Consensus.Contiguity

/-!
How the tables of a log fit together between calls.  The index of chosen commands and the acceptor
keep in step with the chosen entries at every move, but the active proposal does not: while entries
are learned its slot may be taken, and a proposal that has just had its turn has no ballot yet.  In
both cases an attempt is due, and no call ends before it is begun.
-/

namespace ReplicatedLedger

namespace ReplicatedLog

variable {heard : ReplicaId → Message → Prop} {wanted : Command → Prop} {l l' : ReplicatedLog}
  {q : Progress} {p : Proposal} {said actions : List Action} {ready : List LogEntry}
  {sender : ReplicaId} {s : Slot} {b : Ballot} {c : Command} {e : LogEntry} {t : Timer}
  {call : Call} {reply : Reply}

/-! ### Decided slots -/

/-- The acceptor holds nothing about the slots that are known to be chosen. -/
def Forgets (l : ReplicatedLog) : Prop :=
  ∀ s e, l.chosen.get? s = some e → l.acceptor.slots.get? s = none

namespace Forgets

theorem of_frame (h : l.Forgets) (hchosen : l'.chosen = l.chosen)
    (hacceptor : l'.acceptor = l.acceptor) : l'.Forgets := by
  unfold Forgets
  rw [hchosen, hacceptor]
  exact h

/-- On an open slot the acceptor may hold what it likes. -/
theorem withAcceptor {a : Acceptor} {vote : SlotVote} (h : l.Forgets)
    (opened : l.chosen.get? s = none) (hslots : a.slots = l.acceptor.slots.insert s vote) :
    (l.withAcceptor a).Forgets := by
  intro t e known
  show a.slots.get? t = none
  have hne : t ≠ s := by
    rintro rfl
    rw [show l.chosen.get? t = some e from known] at opened
    cases opened
  rw [hslots, SortedMap.get?_insert, if_neg hne]
  exact h t e known

theorem learn (h : l.Forgets) (e : LogEntry) : (l.learn e).Forgets := by
  by_cases hnews : l.isNews e = true
  · intro s e' known
    rw [acceptor_learn hnews]
    show (l.acceptor.slots.erase e.slot).get? s = none
    rw [SortedMap.get?_erase]
    split
    · rfl
    · next hne =>
      rw [get?_chosen_learn, if_neg fun hnew => hne hnew.2] at known
      exact h s e' known
  · rw [learn_of_known (by simpa using hnews)]
    exact h

theorem move (h : l.Forgets) (hmove : Move heard wanted l ready l') : l'.Forgets := by
  cases hmove with
  | promise opened kept =>
      obtain ⟨_, _, rfl⟩ := Acceptor.prepare_eq_ok_iff.1 kept
      exact h.withAcceptor opened rfl
  | vote opened asked kept =>
      obtain ⟨_, rfl⟩ := Acceptor.accept_eq_ok_iff.1 kept
      exact h.withAcceptor opened rfl
  | hear | win => exact h.learn _
  | _ => exact h.of_frame rfl rfl

end Forgets

/-- What every single move keeps: the tables fit together, with the applied prefix and the acceptor
among them. -/
structure Consistent (l : ReplicatedLog) : Prop where
  coherent : l.Coherent
  rooted : l.Rooted
  forgets : l.Forgets

theorem consistent_fresh (topology : Topology) (policy : ConsensusPolicy) :
    Consistent { topology := topology, policy := policy } where
  coherent := coherent_fresh topology policy
  rooted := rooted_fresh topology policy
  forgets _ _ known := by cases known

namespace Consistent

theorem move (h : l.Consistent) (hmove : Move heard wanted l ready l') : l'.Consistent where
  coherent := h.coherent.move hmove
  rooted := h.rooted.move h.coherent hmove
  forgets := h.forgets.move hmove

theorem moves (h : l.Consistent) (hmoves : Moves heard wanted l actions ready l') :
    l'.Consistent := by
  induction hmoves with
  | refl => exact h
  | move first _ ih => exact ih (h.move first)
  | say _ _ ih => exact ih h

end Consistent

/-! ### The active proposal -/

/-- A proposal of which an attempt has been begun, whether it is still under way or not: its ballot
is the replica's own, and all slots before the one that it aims at are known. -/
structure Launched (l : ReplicatedLog) (p : Proposal) : Prop where
  own : p.ballot.replica = l.replica
  seen : p.ballot ≤ l.highestBallot
  below : l.KnowsBelow p.slot

/-- A log whose active proposal, if there is one, has begun an attempt. -/
def Engaged (l : ReplicatedLog) : Prop := ∀ p, l.active = some p → l.Launched p

theorem engaged_of_idle (idle : l.active = none) : l.Engaged := by
  intro p current
  rw [idle] at current
  cases current

namespace Engaged

theorem of_frame (h : l.Engaged) (htopology : l'.topology = l.topology)
    (hactive : l'.active = l.active) (hchosen : l'.chosen = l.chosen)
    (hhighest : l.highestBallot ≤ l'.highestBallot) : l'.Engaged := by
  intro p current
  rw [hactive] at current
  obtain ⟨hown, hseen, hbelow⟩ := h p current
  refine ⟨?_, le_trans hseen hhighest, ?_⟩
  · unfold replica
    rw [htopology]
    exact hown
  · unfold KnowsBelow chosenAt?
    rw [hchosen]
    exact hbelow

theorem observe (h : l.Engaged) (b : Ballot) : (l.observe b).Engaged :=
  h.of_frame rfl rfl rfl (le_max_left _ _)

theorem withAcceptor (h : l.Engaged) (a : Acceptor) : (l.withAcceptor a).Engaged :=
  h.of_frame rfl rfl rfl (le_refl _)

theorem withActive (h : l.Engaged) (current : l.active = some p) (phase : Phase) :
    (l.withActive (p.inPhase phase)).Engaged := by
  intro p' current'
  cases current'
  obtain ⟨hown, hseen, hbelow⟩ := h p current
  exact ⟨hown, hseen, hbelow⟩

theorem learn (h : l.Engaged) (e : LogEntry) : (l.learn e).Engaged := by
  intro p current
  rw [active_learn] at current
  obtain ⟨hown, hseen, hbelow⟩ := h p current
  have hgrows : l.Grows (l.learn e) := .learn l e
  refine ⟨?_, le_trans hseen hgrows.highestBallot, hbelow.grows hgrows⟩
  unfold replica
  rw [topology_learn]
  exact hown

theorem learnAll {batch : List LogEntry} (h : l.Engaged) :
    (batch.foldl ReplicatedLog.learn l).Engaged := by
  induction batch generalizing l with
  | nil => exact h
  | cons e batch ih => exact ih (h.learn e)

end Engaged

/-- A stretch of a step that leaves the log engaged, unless it leaves an attempt due. -/
def Progress.Engages (q : Progress) : Prop := q.due = none → q.log.Engaged

theorem Progress.Engages.after (h : q.Engages) : (Progress.after said q).Engages := h

theorem Engaged.done (h : l.Engaged) : Progress.Engages { log := l, actions := actions } :=
  fun _ => h

theorem engages_due (l : ReplicatedLog) (charge : Charge) :
    Progress.Engages { log := l, due := some charge } :=
  fun hdue => by cases hdue

/-! ### The proposer -/

theorem promote_engages (idle : l.active = none) : l.promote.Engages := by
  unfold promote
  split
  · exact (engaged_of_idle idle).done
  · exact engages_due _ _

theorem complete_engages (l : ReplicatedLog) (p : Proposal) (result : Except LedgerError Slot) :
    (l.complete p result).Engages :=
  (promote_engages rfl).after

theorem onRefusal_engages {promised : Ballot} (hl : l.Engaged)
    (h : l.onRefusal s b promised = .ok q) : q.Engages := by
  unfold onRefusal at h
  have hobserved := hl.observe promised
  generalize l.observe promised = l at h hobserved
  dsimp only at h
  split at h
  · cases h
    exact hobserved.done
  · next p current =>
    split at h
    · split at h
      · cases h
        exact (complete_engages _ _ _).after
      · obtain ⟨pause, _, h⟩ := bind_eq_ok_iff.1 h
        cases h
        exact (hobserved.withActive current .backoff).done
    · cases h
      exact hobserved.done

theorem afterLearning_engages (hl : l.Engaged) : l.afterLearning.Engages := by
  unfold afterLearning
  split
  · exact hl.done
  · split
    · exact complete_engages _ _ _
    · split
      · exact engages_due _ _
      · exact hl.done

theorem onAcceptance_engages (hl : l.Engaged) : (l.onAcceptance sender s b).Engages := by
  unfold onAcceptance
  split
  · exact hl.done
  · next p current =>
    split
    · next value votes _ =>
      split
      · have hcounted := hl.withActive current (.accepting value (votes.insert sender ()))
        dsimp only
        split
        · exact (afterLearning_engages (hcounted.learn _)).after
        · exact hcounted.done
      · exact hl.done
    · exact hl.done

theorem requestAcceptance_engages (hl : l.Engaged) (current : l.active = some p)
    (h : l.requestAcceptance p c = .ok q) : q.Engages := by
  unfold requestAcceptance at h
  have hasking := hl.withActive current (.accepting c ∅)
  dsimp only at h
  split at h
  · cases h
    exact (onAcceptance_engages (hasking.withAcceptor _)).after
  · obtain ⟨q', hq', h⟩ := bind_eq_ok_iff.1 h
    cases h
    exact (onRefusal_engages (hasking.withAcceptor _) hq').after

theorem onPromise_engages {accepted : Option (Ballot × Command)} (hl : l.Engaged)
    (h : l.onPromise sender s b accepted = .ok q) : q.Engages := by
  unfold onPromise at h
  split at h
  · cases h
    exact hl.done
  · next p current =>
    split at h
    · next promises _ =>
      split at h
      · have hcounted := hl.withActive current (.preparing (promises.insert sender accepted))
        dsimp only at h
        split at h
        · exact requestAcceptance_engages hcounted rfl h
        · cases h
          exact hcounted.done
      · cases h
        exact hl.done
    · cases h
      exact hl.done

theorem engaged_reopen {attempts : UInt32} {next : Word} (own : b.replica = l.replica)
    (below : l.KnowsBelow s) : (l.reopen p s b attempts next).Engaged := by
  intro p' current
  cases current
  exact ⟨own, le_max_right l.highestBallot b, below⟩

theorem requestPromises_engages {attempts : UInt32} {next : Word} (own : b.replica = l.replica)
    (below : l.KnowsBelow s) (h : l.requestPromises p s b attempts next = .ok q) : q.Engages := by
  unfold requestPromises at h
  have hreopened : (l.reopen p s b attempts next).Engaged := engaged_reopen own below
  generalize l.reopen p s b attempts next = l' at h hreopened
  dsimp only at h
  split at h
  all_goals
    obtain ⟨q', hq', h⟩ := bind_eq_ok_iff.1 h
    cases h
  · exact (onPromise_engages (hreopened.withAcceptor _) hq').after
  · exact (onRefusal_engages (hreopened.withAcceptor _) hq').after

/-- An attempt is begun on the first open slot, whatever was active before. -/
theorem beginAttempt_engages {charge : Charge} (hl : l.Rooted)
    (h : l.beginAttempt charge = .ok q) : q.Engages := by
  unfold beginAttempt at h
  split at h
  · next idle =>
    cases h
    exact (engaged_of_idle idle).done
  · split at h
    · cases h
      exact complete_engages _ _ _
    · obtain ⟨slot, target, h⟩ := bind_eq_ok_iff.1 h
      obtain ⟨ballot, hballot, h⟩ := bind_eq_ok_iff.1 h
      obtain ⟨next, _, h⟩ := bind_eq_ok_iff.1 h
      obtain ⟨attempts, _, h⟩ := bind_eq_ok_iff.1 h
      exact requestPromises_engages (Ballot.nextFor_eq_ok hballot).2
        (knowsBelow_of_firstOpenSlot hl.applied target) h

/-- The attempts that are due take place in consistent logs, so that the last one is launched. -/
theorem pursue_engaged (hl : q.log.Consistent) (hq : q.Engages)
    (h : pursue q = .ok (l', actions)) : l'.Engaged := by
  have hkept : l'.Consistent ∧ Progress.Engages { log := l', actions := actions } := by
    refine pursue_induction (P := fun q => q.log.Consistent ∧ q.Engages)
      (fun q charge q' hq _ hq' => ?_) hl.coherent ⟨hl, hq⟩ h
    have hfollows : Progress.Follows (fun _ _ => True) (fun _ => True) q.log q' :=
      beginAttempt_follows hq'
    exact ⟨hq.1.moves hfollows.moves, (beginAttempt_engages hq.1.rooted hq').after⟩
  exact hkept.2 rfl

/-! ### Messages and timers -/

theorem answerPrepare_engages (hl : l.Engaged) : (l.answerPrepare sender b s).Engages := by
  unfold answerPrepare
  dsimp only
  split
  · exact (hl.observe b).done
  · exact ((hl.observe b).withAcceptor _).done

theorem answerAccept_engages (hl : l.Engaged) : (l.answerAccept sender b s c).Engages := by
  unfold answerAccept
  dsimp only
  split
  · exact (hl.observe b).done
  · exact ((hl.observe b).withAcceptor _).done

theorem onChosen_engages (hl : l.Engaged) (h : l.onChosen sender e = .ok q) : q.Engages := by
  obtain ⟨requests, _, rfl⟩ := map_eq_ok_iff.1 h
  exact (afterLearning_engages (hl.learn e)).after

theorem onCatchUpResponse_engages {batch : List LogEntry} (hl : l.Engaged)
    (h : l.onCatchUpResponse sender batch = .ok q) : q.Engages := by
  obtain ⟨requests, _, rfl⟩ := map_eq_ok_iff.1 h
  exact (afterLearning_engages hl.learnAll).after

theorem onCatchUpRequest_engages (hl : l.Engaged) : (l.onCatchUpRequest sender s).Engages := by
  unfold onCatchUpRequest
  dsimp only
  split <;> exact hl.done

theorem onMessage_engages {m : Message} (hl : l.Engaged) (h : l.onMessage sender m = .ok q) :
    q.Engages := by
  unfold onMessage at h
  split at h
  · cases m with
    | prepare b s =>
        cases h
        exact answerPrepare_engages hl
    | promise b s accepted =>
        cases accepted with
        | none => exact onPromise_engages hl h
        | some vote => exact onPromise_engages (hl.observe vote.1) h
    | accept b s c =>
        cases h
        exact answerAccept_engages hl
    | accepted b s =>
        cases h
        exact onAcceptance_engages hl
    | nack b s promised => exact onRefusal_engages hl h
    | chosen e => exact onChosen_engages hl h
    | catchUpRequest start =>
        cases h
        exact onCatchUpRequest_engages hl
    | catchUpResponse batch => exact onCatchUpResponse_engages hl h
  · cases h
    exact hl.done

theorem onTimer_engages (hl : l.Engaged) : (l.onTimer t).Engages := by
  unfold onTimer
  split
  · exact hl.done
  · split
    · split
      · split
        · exact complete_engages _ _ _
        · exact engages_due _ _
      · exact hl.done
    · split
      · exact engages_due _ _
      · exact hl.done

/-! ### Whole calls -/

theorem begun_engages (hl : l.Engaged) : l.begun.Engages := by
  unfold begun
  split
  · exact hl.done
  · next idle => exact promote_engages (by simpa using idle)

theorem propose_engaged {id : ProposalId} (hl : l.Consistent) (hs : l.Settled) (he : l.Engaged)
    (h : l.propose c = .ok (l', id, actions)) : l'.Engaged := by
  obtain ⟨next, counted, _, hpursue⟩ := propose_eq_ok h
  have hsubmit : Move (fun _ _ => True) (· = c) l [] (l.submitted c next) := .submit rfl counted
  have hsubmitted : (l.submitted c next).Settled := hs
  have hengaged : (l.submitted c next).Engaged := he.of_frame rfl rfl rfl (le_refl _)
  have hfollows : Progress.Follows (fun _ _ => True) (· = c) _ (l.submitted c next).begun :=
    begun_follows hsubmitted
  exact pursue_engaged ((hl.move hsubmit).moves hfollows.moves) (begun_engages hengaged) hpursue

theorem answer_engaged (hl : l.Consistent) (hs : l.Settled) (he : l.Engaged)
    (h : l.answer call = .ok reply) : reply.log.Engaged := by
  cases call with
  | propose c =>
      obtain ⟨⟨log, id, actions⟩, hpropose, rfl⟩ := map_eq_ok_iff.1 h
      exact propose_engaged hl hs he hpropose
  | deliver sender m =>
      obtain ⟨⟨log, actions⟩, hhandle, rfl⟩ := map_eq_ok_iff.1 h
      obtain ⟨q, hq, hpursue⟩ := bind_eq_ok_iff.1 hhandle
      have hfollows : Progress.Follows (fun _ _ => True) (fun _ => True) l q :=
        onMessage_follows hl.coherent hs trivial hq
      exact pursue_engaged (hl.moves hfollows.moves) (onMessage_engages he hq) hpursue
  | expire t =>
      obtain ⟨⟨log, actions⟩, hpursue, rfl⟩ := map_eq_ok_iff.1 h
      have hfollows : Progress.Follows (fun _ _ => True) (fun _ => True) l (l.onTimer t) :=
        onTimer_follows hs
      exact pursue_engaged (hl.moves hfollows.moves) (onTimer_engages he) hpursue
  | drainApplicable =>
      obtain ⟨⟨log, ready⟩, hdrain, rfl⟩ := map_eq_ok_iff.1 h
      obtain ⟨stop, _, rfl⟩ := drainApplicable_eq_ok hdrain
      exact he.of_frame rfl rfl rfl (le_refl _)
  | requestCatchUp =>
      obtain ⟨said, _, rfl⟩ := map_eq_ok_iff.1 h
      exact he
  | takeCompletions =>
      cases h
      exact he.of_frame rfl rfl rfl (le_refl _)
  | repartition partition =>
      cases h
      exact he.of_frame rfl rfl rfl (le_refl _)

/-! ### Between calls -/

/-- What the active proposal is to its log between calls: an attempt on the first open slot, under
a ballot of the replica's own.  None of the slots that it answers for holds its command. -/
structure Pursues (l : ReplicatedLog) (p : Proposal) : Prop where
  target : l.firstOpenSlot = .ok p.slot
  opened : l.chosenAt? p.slot = none
  seen : p.ballot ≤ l.highestBallot
  own : p.ballot.replica = l.replica
  begun : p.floor ≤ l.nextApply
  unchosen : ∀ s e, l.chosenAt? s = some e → e.command = p.command → s < p.floor

/-- The representation of a log between calls. -/
structure WellFormed (l : ReplicatedLog) : Prop where
  indexed : ∀ c s, (∃ slots, l.slotsOf.get? c = some slots ∧ slots.contains s = true) ↔
    ∃ e, l.chosenAt? s = some e ∧ e.command = c
  applied : ∀ s < l.nextApply, ∃ e, l.chosenAt? s = some e
  forgotten : ∀ s e, l.chosenAt? s = some e → l.acceptor.slots.get? s = none
  active : ∀ p, l.active = some p → l.Pursues p

/-- A proposal on an open slot, with no unknown slot before it, aims at the first open one. -/
theorem firstOpenSlot_of_knowsBelow (happlied : l.KnowsBelow l.nextApply) (hs : l.KnowsBelow s)
    (opened : l.chosen.get? s = none) : l.firstOpenSlot = .ok s := by
  refine firstOpenSlot_eq_ok_iff.2 ⟨?_, fun t _ ht => hs t ht, opened⟩
  -- an applied slot would be known
  by_contra hless
  have hlt : s < l.nextApply := by
    rw [Slot.le_iff_toNat] at hless
    rw [Slot.lt_iff_toNat]
    omega
  obtain ⟨e, he⟩ := happlied s hlt
  rw [show l.chosen.get? s = some e from he] at opened
  cases opened

theorem Consistent.wellFormed (h : l.Consistent) (hs : l.Settled) (he : l.Engaged) :
    l.WellFormed where
  indexed := h.coherent.indexed
  applied := h.rooted.applied
  forgotten := h.forgets
  active p current := by
    obtain ⟨opened, since⟩ := hs p current
    obtain ⟨hown, hseen, hbelow⟩ := he p current
    exact {
      target := firstOpenSlot_of_knowsBelow h.rooted.applied hbelow opened
      opened := opened
      seen := hseen
      own := hown
      begun := h.coherent.begun p current
      unchosen := (chosenSince?_eq_none_iff h.coherent.indexed).1 since }

end ReplicatedLog

namespace Group

variable {g : Group} {w : World ReplicatedLog} {turns : List Turn}

/-- The group enters only in that its logs are settled between calls. -/
theorem Run.engaged (hrun : g.Run g.start turns w) (r : ReplicaId) :
    (w.machine r).Consistent ∧ (w.machine r).Engaged := by
  induction hrun with
  | rest => exact ⟨ReplicatedLog.consistent_fresh _ _, ReplicatedLog.engaged_of_idle rfl⟩
  | @turn turns t w earlier taken ih =>
      by_cases hr : r = t.replica
      · subst hr
        have hsteady : g.Steady w := earlier.steady g.steady_start
        obtain ⟨hmoves, _⟩ := taken.moves hsteady
        rw [World.machine_update_self]
        exact ⟨ih.1.moves hmoves,
          ReplicatedLog.answer_engaged ih.1 (hsteady.settled _) ih.2 taken.answered⟩
      · rw [World.machine_update_of_ne hr]
        exact ih

/-- Whatever calls the logs of a group have answered, each is well-formed after every one of them:
the index lists each command at exactly the slots where it was chosen, all slots before the next one
to be applied are known, the acceptor holds nothing about a decided slot, and the active proposal
aims at the first open slot with a ballot of its replica's own, its command not having been chosen
from its floor on. -/
theorem log_wellFormed (hrun : g.Run g.start turns w) (r : ReplicaId) :
    (w.machine r).WellFormed := by
  obtain ⟨hconsistent, hengaged⟩ := hrun.engaged r
  exact hconsistent.wellFormed ((hrun.steady g.steady_start).settled r) hengaged

/-- A proposal that has just had its turn, at the end of the call that had the one before it chosen,
aims at the slot after that. -/
theorem log_wellFormed_pair : ∃ turns w, pair.Run pair.start turns w ∧
    ((w.machine ⟨1⟩).chosenAt? ⟨0⟩).map (·.command) = some (.commit ⟨7⟩) ∧
      (w.machine ⟨1⟩).active.map (fun p => (p.command, p.slot, p.ballot)) =
        some (.abort ⟨7⟩, ⟨1⟩, ⟨2, ⟨1⟩⟩) ∧
      (w.machine ⟨1⟩).WellFormed := by
  have hrun := pair.run_callAll pair.start queueing
  exact ⟨_, _, hrun, by decide +kernel, by decide +kernel, log_wellFormed hrun ⟨1⟩⟩

end Group

end ReplicatedLedger
