import ReplicatedLedger.Proofs.Consensus.Agreement
import ReplicatedLedger.Proofs.Consensus.Submission

/-!
Every proposal is completed once.  The submissions that a log has taken up, in the order of their
ids, are those that it has ended, then the active one, then those that wait; and the completions
that it has handed over or still holds end the first of them one by one.
-/

namespace ReplicatedLedger

namespace ReplicatedLog

variable {heard : ReplicaId → Message → Prop} {l l' : ReplicatedLog} {call : Call} {reply : Reply}
  {docket : List Submission} {handed : List Completion} {ready : List LogEntry}
  {actions : List Action} {id : ProposalId} {c : Command}

/-! ### Steps that submit nothing -/

theorem Move.nextProposal_eq (h : Move heard (fun _ => False) l ready l') :
    l'.nextProposal = l.nextProposal := by
  cases h with
  | hear | win => exact nextProposal_learn l _
  | submit due => exact due.elim
  | _ => rfl

theorem Moves.nextProposal_eq (h : Moves heard (fun _ => False) l actions ready l') :
    l'.nextProposal = l.nextProposal := by
  induction h with
  | refl => rfl
  | move first _ ih => exact ih.trans first.nextProposal_eq
  | say _ _ ih => exact ih

theorem eq_of_propose (h : l.propose c = .ok (l', id, actions)) : id = ⟨l.nextProposal⟩ := by
  obtain ⟨_, _, hid, _⟩ := propose_eq_ok h
  exact hid

theorem nextProposal_of_propose (hl : l.Coherent) (hs : l.Settled)
    (h : l.propose c = .ok (l', id, actions)) :
    l'.nextProposal.toNat = l.nextProposal.toNat + 1 := by
  obtain ⟨next, counted, hfollows⟩ : ∃ next, _ ∧
      Progress.Follows (fun _ _ => False) (fun _ => False) (l.submitted c next) _ :=
    propose_follows hl hs h
  rw [hfollows.moves.nextProposal_eq]
  exact Word.sum_one_eq_ok_iff.1 counted

/-! ### The completions of a log -/

/-- What a call submits. -/
def Call.submission? (l : ReplicatedLog) : Call → Option Submission
  | .propose c => some ⟨⟨l.nextProposal⟩, c, l.nextApply⟩
  | _ => none

theorem Call.eq_of_submission {s : Submission} (h : call.submission? l = some s) :
    call = .propose s.command ∧ s.floor = l.nextApply := by
  cases call with
  | propose c =>
      cases h
      exact ⟨rfl, rfl⟩
  | _ => cases h

/-- Of all calls, only that which submits and that which takes the completions change the
account. -/
theorem answer_keeps (hl : l.Coherent) (hs : l.Settled) (hcall : call.submission? l = none)
    (hne : call ≠ .takeCompletions) (h : l.answer call = .ok reply) :
    (∀ rest, l.Accounts rest → reply.log.Accounts rest) ∧
      reply.proposal? = none ∧ reply.completions = [] := by
  cases call with
  | propose c => cases hcall
  | deliver sender m =>
      obtain ⟨⟨log, said⟩, hhandle, rfl⟩ := map_eq_ok_iff.1 h
      exact ⟨handle_keeps hl hs hhandle hl, rfl, rfl⟩
  | expire t =>
      obtain ⟨⟨log, said⟩, hhandle, rfl⟩ := map_eq_ok_iff.1 h
      exact ⟨handle_keeps hl hs hhandle hl, rfl, rfl⟩
  | drainApplicable =>
      obtain ⟨⟨log, ready⟩, hdrain, rfl⟩ := map_eq_ok_iff.1 h
      exact ⟨fun _ ha => ha.drainApplicable hdrain, rfl, rfl⟩
  | requestCatchUp =>
      obtain ⟨said, _, rfl⟩ := map_eq_ok_iff.1 h
      exact ⟨fun _ ha => ha, rfl, rfl⟩
  | takeCompletions => exact absurd rfl hne
  | repartition partition =>
      cases h
      exact ⟨fun _ ha => ha.of_frame rfl rfl fun _ _ he => he, rfl, rfl⟩

/-- A log that was given the submissions of a docket, numbered from the first on.  What it has
handed over ends the first of them, and it accounts for the rest. -/
structure Completes (docket : List Submission) (handed : List Completion) (l : ReplicatedLog) :
    Prop where
  numbered : docket.map (·.id.number.toNat) = List.range l.nextProposal.toNat
  accounts : ∃ past rest, docket = past ++ rest ∧
    List.Forall₂ (fun s x => s.EndedBy l x) past handed ∧ l.Accounts rest

theorem completes_fresh (t : Topology) (policy : ConsensusPolicy) :
    Completes [] [] { topology := t, policy := policy } where
  numbered := rfl
  accounts := ⟨[], [], rfl, .nil, accounts_undecided rfl⟩

namespace Completes

/-- All submissions are ended, active or waiting, in this order. -/
theorem exists_ended (h : l.Completes docket handed) : ∃ ended, docket = ended ++ l.undecided ∧
    List.Forall₂ (fun s x => s.EndedBy l x) ended (handed ++ l.completions) := by
  obtain ⟨past, rest, rfl, hpast, ended, rfl, hended⟩ := h.accounts
  exact ⟨past ++ ended, (List.append_assoc ..).symm, List.rel_append hpast hended⟩

/-- A step that submits nothing and hands nothing over. -/
theorem keep (h : l.Completes docket handed)
    (hmoves : Moves heard (fun _ => False) l actions ready l')
    (hkeeps : ∀ rest, l.Accounts rest → l'.Accounts rest) : l'.Completes docket handed where
  numbered := by
    rw [hmoves.nextProposal_eq]
    exact h.numbered
  accounts := by
    obtain ⟨past, rest, hdocket, hpast, hrest⟩ := h.accounts
    exact ⟨past, rest, hdocket, hpast.imp fun _ _ hx => hx.mono hmoves.grows.chosen,
      hkeeps rest hrest⟩

theorem propose (h : l.Completes docket handed) (hl : l.Coherent) (hs : l.Settled)
    (hpropose : l.propose c = .ok (l', id, actions)) :
    l'.Completes (docket ++ [⟨id, c, l.nextApply⟩]) handed where
  numbered := by
    rw [List.map_append, h.numbered, nextProposal_of_propose hl hs hpropose, List.range_succ,
      eq_of_propose hpropose]
    rfl
  accounts := by
    obtain ⟨past, rest, rfl, hpast, hrest⟩ := h.accounts
    obtain ⟨hmoves, _⟩ : Moves (fun _ _ => False) (· = c) l actions [] l' ∧ l'.Settled :=
      propose_moves hl hs rfl hpropose
    exact ⟨past, _, List.append_assoc .., hpast.imp fun _ _ hx => hx.mono hmoves.grows.chosen,
      propose_accounts hl hs hrest hpropose⟩

/-- What is handed over is not held any more. -/
theorem takeCompletions (h : l.Completes docket handed) :
    l.takeCompletions.1.Completes docket (handed ++ l.completions) where
  numbered := h.numbered
  accounts := by
    obtain ⟨ended, hdocket, hended⟩ := h.exists_ended
    exact ⟨ended, l.undecided, hdocket, hended.imp fun _ _ hx => hx.mono fun _ _ he => he,
      accounts_undecided (l := l.takeCompletions.1) rfl⟩

/-- A call adds what it submits to the docket, and what it returns to what has been handed over. -/
theorem answer (h : l.Completes docket handed) (hl : l.Coherent) (hs : l.Settled)
    (hanswer : l.answer call = .ok reply) :
    reply.log.Completes (docket ++ (call.submission? l).toList) (handed ++ reply.completions) ∧
      reply.proposal? = (call.submission? l).map (·.id) := by
  cases call with
  | propose c =>
      obtain ⟨⟨log, id, actions⟩, hpropose, rfl⟩ := map_eq_ok_iff.1 hanswer
      have hid := eq_of_propose hpropose
      have hafter := h.propose hl hs hpropose
      rw [hid] at hafter
      exact ⟨by simpa [Call.submission?] using hafter, congrArg some hid⟩
  | takeCompletions =>
      cases hanswer
      exact ⟨(List.append_nil docket).symm ▸ h.takeCompletions, rfl⟩
  | _ =>
      have hsilent : Moves (fun _ _ => True) (fun _ => False) l _ _ _ ∧ Settled _ :=
        answer_moves hl hs (fun _ _ _ => trivial) (fun _ hc => by cases hc) hanswer
      obtain ⟨hkeeps, hproposal, hcompletions⟩ := answer_keeps hl hs rfl (by simp) hanswer
      rw [hcompletions]
      exact ⟨by simpa [Call.submission?] using h.keep hsilent.1 hkeeps, hproposal⟩

end Completes

end ReplicatedLog

namespace Group

open ReplicatedLog (Completes)

/-- The ids that a replica's calls of `propose` have returned, in order. -/
def returnedIds (turns : List Turn) (r : ReplicaId) : List ProposalId :=
  (turns.filter (·.replica = r)).filterMap (·.reply.proposal?)

/-- The completions that a replica's log has handed over, in order. -/
def handedOver (turns : List Turn) (r : ReplicaId) : List Completion :=
  (turns.filter (·.replica = r)).flatMap (·.reply.completions)

/-- The completions that a replica's log has produced so far: those handed over, and those that it
still holds. -/
def produced (turns : List Turn) (w : World ReplicatedLog) (r : ReplicaId) : List Completion :=
  handedOver turns r ++ (w.machine r).completions

variable {g : Group} {turns : List Turn} {w : World ReplicatedLog} {r : ReplicaId} {t : Turn}
  {s : Submission}

variable (g) in
/-- Whether a submission was made at a replica in some turn. -/
def SubmittedIn (turns : List Turn) (r : ReplicaId) (s : Submission) : Prop :=
  ∃ earlier t later w, turns = earlier ++ t :: later ∧ g.Run g.start earlier w ∧ t.replica = r ∧
    t.call = .propose s.command ∧ t.reply.proposal? = some s.id ∧ s.floor = (w.machine r).nextApply

theorem SubmittedIn.later (h : g.SubmittedIn turns r s) (t : Turn) :
    g.SubmittedIn (turns ++ [t]) r s := by
  obtain ⟨earlier, t', later, w, rfl, hturn⟩ := h
  exact ⟨earlier, t', later ++ [t], w, by simp, hturn⟩

/-- What a replica's log has completed, and what it was given to complete. -/
theorem Run.completes (hrun : g.Run g.start turns w) (r : ReplicaId) : ∃ docket,
    (w.machine r).Completes docket (handedOver turns r) ∧ docket.map (·.id) = returnedIds turns r ∧
      ∀ s ∈ docket, g.SubmittedIn turns r s := by
  induction hrun with
  | rest => exact ⟨[], ReplicatedLog.completes_fresh _ _, rfl, by simp⟩
  | @turn turns t w' earlier taken ih =>
      obtain ⟨docket, hcompletes, hids, hsubmitted⟩ := ih
      have hw := earlier.steady g.steady_start
      by_cases hr : t.replica = r
      · subst hr
        obtain ⟨hafter, hproposal⟩ :=
          hcompletes.answer (hw.coherent _) (hw.settled _) taken.answered
        rw [World.machine_update_self]
        refine ⟨_, by simpa [handedOver] using hafter, ?_, fun s hs => ?_⟩
        · have hnew : returnedIds (turns ++ [t]) t.replica =
              returnedIds turns t.replica ++ t.reply.proposal?.toList := by
            cases hp : t.reply.proposal? <;> simp [returnedIds, hp]
          rw [List.map_append, hids, hnew, hproposal]
          cases t.call.submission? (w'.machine t.replica) <;> rfl
        · rcases List.mem_append.1 hs with hold | hnew
          · exact (hsubmitted s hold).later t
          · have hs' := Option.mem_toList.1 hnew
            have hcall := ReplicatedLog.Call.eq_of_submission hs'
            rw [hs'] at hproposal
            exact ⟨turns, t, [], w', rfl, earlier, rfl, hcall.1, hproposal, hcall.2⟩
      · refine ⟨docket, ?_, ?_, fun s hs => (hsubmitted s hs).later t⟩
        · rw [World.machine_update_of_ne (Ne.symm hr)]
          simpa [handedOver, hr] using hcompletes
        · simpa [returnedIds, hr] using hids

variable (g) in
/-- How a replica's log deals with what was proposed to it. -/
structure CompletesInOrder (turns : List Turn) (w : World ReplicatedLog) (r : ReplicaId) :
    Prop where
  /-- Every call of `propose` returns another id. -/
  numbered : (returnedIds turns r).map (·.number.toNat) =
    List.range (w.machine r).nextProposal.toNat
  /-- The ids returned are those of the completions, of the active proposal and of the waiting
  ones. -/
  everyId : (produced turns w r).map (·.id) ++ ((w.machine r).active.map (·.id)).toList ++
    (w.machine r).waiting.map (·.id) = returnedIds turns r
  /-- The ids of the completions ascend without a gap. -/
  ascending : (produced turns w r).map (·.id.number.toNat) =
    List.range (produced turns w r).length
  /-- If the result of a completion is a slot, the command that was submitted under its id is chosen
  there, and the slot was not applied yet at that time. -/
  truthful : ∀ x ∈ produced turns w r, ∃ earlier t later w₀, turns = earlier ++ t :: later ∧
    g.Run g.start earlier w₀ ∧ t.replica = r ∧ t.call = .propose x.command ∧
    t.reply.proposal? = some x.id ∧
    ∀ slot, x.result = .ok slot → (w₀.machine r).nextApply ≤ slot ∧
      ∃ e, (w.machine r).chosenAt? slot = some e ∧ e.slot = slot ∧ e.command = x.command ∧
        g.Elected w e

/-- At every moment, each id that a replica has returned is that of one completion, of the active
proposal or of a waiting one.  The completions come in the order of the ids, and tell the truth. -/
theorem proposals_complete_in_order (hrun : g.Run g.start turns w) (r : ReplicaId) :
    g.CompletesInOrder turns w r := by
  have hsound : g.Sound w := (hrun.steady g.steady_start).sound
  obtain ⟨docket, hcompletes, hids, hsubmitted⟩ := hrun.completes r
  obtain ⟨ended, rfl, hended⟩ := hcompletes.exists_ended
  change List.Forall₂ _ ended (produced turns w r) at hended
  have hnumbered : (returnedIds turns r).map (·.number.toNat) =
      List.range (w.machine r).nextProposal.toNat := by
    rw [← hids, List.map_map]
    exact hcompletes.numbered
  have hproduced : ended.map (·.id) = (produced turns w r).map (·.id) :=
    List.forall₂_eq_eq_eq ▸ List.forall₂_map_left_iff.2
      (List.forall₂_map_right_iff.2 (hended.imp fun _ _ hx => hx.id.symm))
  have hall : (produced turns w r).map (·.id) ++ ((w.machine r).active.map (·.id)).toList ++
      (w.machine r).waiting.map (·.id) = returnedIds turns r := by
    rw [← hids, ← hproduced]
    cases hactive : (w.machine r).active with
    | none => simp [ReplicatedLog.undecided, hactive]
    | some p => simp [ReplicatedLog.undecided, hactive, Proposal.submission]
  refine ⟨hnumbered, hall, ?_, fun x hx => ?_⟩
  · -- the ids of the completions are the first of all
    rw [← hall, List.append_assoc, List.map_append, List.map_map] at hnumbered
    have hfirst := List.prefix_iff_eq_take.1 ⟨_, hnumbered⟩
    have hlength := congrArg List.length hfirst
    rw [List.take_range] at hfirst
    simp only [List.length_map, List.length_take, List.length_range] at hfirst hlength
    rw [← hlength] at hfirst
    exact hfirst
  · obtain ⟨n, hn, rfl⟩ := List.getElem_of_mem hx
    have hlt : n < ended.length := hended.length_eq ▸ hn
    have hends : ended[n].EndedBy (w.machine r) (produced turns w r)[n] := hended.get hlt hn
    obtain ⟨earlier, t, later, w₀, hturns, hbefore, hreplica, hcall, hproposal, hfloor⟩ :=
      hsubmitted _ (List.mem_append_left _ (List.getElem_mem hlt))
    rw [← hends.command] at hcall
    rw [← hends.id] at hproposal
    refine ⟨earlier, t, later, w₀, hturns, hbefore, hreplica, hcall, hproposal, ?_⟩
    intro slot hslot
    obtain ⟨hle, e, he, hcommand⟩ := hends.chosen slot hslot
    obtain ⟨heslot, helected⟩ := hsound.chosen r slot e he
    exact ⟨hfloor ▸ hle, e, he, heslot, hcommand.trans hends.command.symm, helected⟩

/-- The second proposal of a replica waits for the first one, which is handed over before it is
completed itself. -/
def completing : List (ReplicaId × ReplicatedLog.Call) :=
  queueing ++ (⟨1⟩, .takeCompletions) ::
    (balloting ⟨1⟩ ⟨2⟩ ⟨2, ⟨1⟩⟩ ⟨1⟩ none (.abort ⟨7⟩)).map arrival

theorem proposals_complete_in_order_pair : ∃ turns w, pair.Run pair.start turns w ∧
    returnedIds turns ⟨1⟩ = [⟨0⟩, ⟨1⟩] ∧ (handedOver turns ⟨1⟩).map (·.result) = [.ok ⟨0⟩] ∧
      (produced turns w ⟨1⟩).map (·.result) = [.ok ⟨0⟩, .ok ⟨1⟩] ∧
      pair.CompletesInOrder turns w ⟨1⟩ := by
  have hrun := pair.run_callAll pair.start completing
  exact ⟨_, _, hrun, by decide +kernel, by decide +kernel, by decide +kernel,
    proposals_complete_in_order hrun ⟨1⟩⟩

end Group

end ReplicatedLedger
