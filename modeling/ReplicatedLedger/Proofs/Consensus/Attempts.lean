import ReplicatedLedger.Proofs.Consensus.Allowance
import ReplicatedLedger.Proofs.Consensus.Completion

/-!
How often a proposal is tried.  Its first attempt is charged to it, and so is every one that begins
when its timer has run out; an attempt on another slot, after another command took the first one, is
free.  A proposal fails only when all the attempts that are allowed have been charged.
-/

namespace ReplicatedLedger

namespace ReplicatedLog

variable {l l' : ReplicatedLog} {p : Proposal} {s : Slot} {b promised : Ballot} {c : Command}
  {actions : List Action} {call : Call} {reply : Reply}

/-! ### Whole calls -/

/-- A log between calls.  Its active proposal has been charged at least one attempt and no more than
are allowed, and has one left when it pauses. -/
structure Frugal (l : ReplicatedLog) (limit : UInt32) : Prop where
  policy : l.policy.maxAttempts = limit
  positive : 1 ≤ limit
  within : ∀ p, l.active = some p → 1 ≤ p.attempts ∧ p.attempts ≤ limit
  paused : ∀ p, l.active = some p → p.phase = .backoff → p.attempts < limit

theorem frugal_fresh (topology : Topology) {policy : ConsensusPolicy}
    (positive : 1 ≤ policy.maxAttempts) :
    Frugal { topology := topology, policy := policy } policy.maxAttempts where
  policy := rfl
  positive := positive
  within _ current := by cases current
  paused _ current := by cases current

/-- The id of the active proposal is its own. -/
def Distinct (l : ReplicatedLog) : Prop :=
  ∀ p, l.active = some p → p.id ≠ ⟨l.nextProposal⟩ ∧ ∀ s ∈ l.waiting, p.id ≠ s.id

theorem Completes.distinct {docket : List Submission} {handed : List Completion}
    (h : l.Completes docket handed) : l.Distinct := by
  intro p current
  obtain ⟨ended, rfl, _⟩ := h.exists_ended
  have hnumbered := h.numbered
  rw [undecided_of_active current] at hnumbered
  have hall : ((ended ++ p.submission :: l.waiting).map (·.id)).Nodup := by
    refine List.Nodup.of_map (fun id => id.number.toNat) ?_
    rw [List.map_map]
    exact hnumbered ▸ List.nodup_range
  have hmem : p.id.number.toNat ∈ List.range l.nextProposal.toNat := by
    rw [← hnumbered]
    exact List.mem_map_of_mem (f := (·.id.number.toNat))
      (List.mem_append_right ended List.mem_cons_self)
  constructor
  · intro hid
    have hlt := List.mem_range.1 hmem
    rw [hid] at hlt
    exact lt_irrefl _ hlt
  · intro s hs hid
    rw [List.map_append, List.map_cons] at hall
    have htail := (List.nodup_cons.1 (List.nodup_append.1 hall).2.1).1
    exact htail (List.mem_map.2 ⟨s, hs, hid.symm⟩)

namespace Frugal

variable {limit : UInt32} {reason : LedgerError} {due : Option Charge}

/-- What a call may bring about. -/
def allowance (h : l.Frugal limit) (call : Call) : Allowance where
  limit := limit
  positive := h.positive
  charged id :=
    match l.active with
    | some p => if p.id = id then p.attempts.toNat + call.charges p else 1
    | none => 1
  fails x := x ∈ l.completions ∨ ∃ p reason, l.active = some p ∧
    x = ⟨p.id, p.command, .error reason⟩ ∧ p.attempts = limit ∧ p.GivesUp call reason

theorem charged_self (h : l.Frugal limit) (current : l.active = some p) :
    (h.allowance call).charged p.id = p.attempts.toNat + call.charges p := by
  unfold allowance
  simp [current]

theorem charged_of_ne (h : l.Frugal limit) {id : ProposalId}
    (hne : ∀ p, l.active = some p → p.id ≠ id) : (h.allowance call).charged id = 1 := by
  unfold allowance
  dsimp only
  split
  · next p current => rw [if_neg (hne p current)]
  · rfl

theorem affords (h : l.Frugal limit) (hd : l.Distinct) (call : Call) :
    l.Affords (h.allowance call) where
  limit := h.policy
  waiting s hs := h.charged_of_ne fun p current => (hd p current).2 s hs
  failed _ hx _ _ := .inl hx

theorem excuses (h : l.Frugal limit) (current : l.active = some p) (ends : p.GivesUp call reason) :
    (h.allowance call).Excuses p reason := fun spent =>
  .inr ⟨p, reason, current, rfl, UInt32.le_antisymm (h.within p current).2 spent, ends⟩

/-- A log keeps to the allowance of a call if the attempt that is due is the one that the call
charges, and is left. -/
theorem obeys_due (h : l.Frugal limit) (hd : l.Distinct)
    (costs : ∀ p, l.active = some p → call.charges p = due.elim 0 Charge.cost)
    (left : ∀ p, l.active = some p → p.attempts.toNat + call.charges p ≤ limit.toNat) :
    l.Obeys (h.allowance call) due where
  affords := h.affords hd call
  counted p current := by rw [h.charged_self current, costs p current]
  within p current := by
    rw [h.charged_self current]
    exact left p current
  paused _ := h.paused

/-- Nothing is charged by a call that brings no timer. -/
theorem obeys (h : l.Frugal limit) (hd : l.Distinct)
    (free : ∀ p, l.active = some p → call.charges p = 0) : l.Obeys (h.allowance call) none := by
  refine h.obeys_due hd free fun p current => ?_
  rw [free p current]
  exact UInt32.le_iff_toNat_le.1 (h.within p current).2

/-- One more attempt is charged when the timer has run out, which there has to be. -/
theorem obeys_charged (h : l.Frugal limit) (hd : l.Distinct) (current : l.active = some p)
    (left : p.attempts < limit) :
    l.Obeys (h.allowance (.expire p.timer)) (some .charged) := by
  have same : ∀ p', l.active = some p' → p' = p := fun p' current' =>
    Option.some.inj (current'.symm.trans current)
  refine h.obeys_due hd (fun p' current' => ?_) (fun p' current' => ?_)
  · rw [same p' current', Call.charges_timer]
    rfl
  · rw [same p' current', Call.charges_timer]
    exact UInt32.lt_iff_toNat_lt.1 left

theorem onTimer_obeys (h : l.Frugal limit) (hd : l.Distinct) (t : Timer) :
    (l.onTimer t).Obeys (h.allowance (.expire t)) := by
  cases current : l.active with
  | none =>
      unfold onTimer
      rw [current]
      exact .of_idle (h.affords hd _) current
  | some p =>
      by_cases ht : t = p.timer
      · subst ht
        rcases onTimer_timer current with ⟨underway, spent, hends⟩ | ⟨hleft, hdue⟩
        · rw [hends]
          refine complete_error_obeys (h.affords hd _) (h.excuses current ?_) spent
          rw [Proposal.timer_of_underway underway]
          exact .timedOut
        · rw [hdue]
          refine h.obeys_charged hd current ?_
          exact hleft.elim (h.paused p current) fun left => h.policy ▸ left
      · rw [onTimer_of_unarmed (attended_of_active current) (by simpa using ht)]
        refine h.obeys hd fun p' current' => ?_
        rw [current] at current'
        cases current'
        exact if_neg ht

theorem propose_obeys {id : ProposalId} (h : l.Frugal limit) (hd : l.Distinct) (hl : l.Coherent)
    (hs : l.Settled) (hpropose : l.propose c = .ok (l', id, actions)) :
    l'.Obeys (h.allowance (.propose c)) none := by
  have hobeys : l.Obeys (h.allowance (.propose c)) none := h.obeys hd fun _ _ => rfl
  obtain ⟨next, counted, _, hpursue⟩ := propose_eq_ok hpropose
  have hsubmitted : (l.submitted c next).Obeys (h.allowance (.propose c)) none := by
    refine ⟨⟨h.policy, fun s hs => ?_, hobeys.affords.failed⟩, hobeys.counted, hobeys.within,
      hobeys.paused⟩
    rcases List.mem_append.1 hs with hold | hnew
    · exact hobeys.affords.waiting s hold
    · cases List.mem_singleton.1 hnew
      exact h.charged_of_ne fun p current => (hd p current).1
  have hbegun : (l.submitted c next).begun.Obeys (h.allowance (.propose c)) := by
    unfold begun
    split
    · exact hsubmitted
    · next idle => exact promote_obeys hsubmitted.affords (by simpa using idle)
  have hsubmit : Move (fun _ _ => True) (· = c) l [] (l.submitted c next) := .submit rfl counted
  have hfollows : Progress.Follows (fun _ _ => True) (· = c) _ (l.submitted c next).begun :=
    begun_follows (show (l.submitted c next).Settled from hs)
  exact pursue_obeys ((hl.move hsubmit).moves hfollows.moves) hbegun hpursue

/-- A call keeps to its allowance, and hands over only what was completed before. -/
theorem answer_obeys (h : l.Frugal limit) (hd : l.Distinct) (hl : l.Coherent) (hs : l.Settled)
    (truthful : ∀ sender b s promised, call = .deliver sender (.nack b s promised) → b < promised)
    (hanswer : l.answer call = .ok reply) :
    reply.log.Obeys (h.allowance call) none ∧ reply.completions ⊆ l.completions := by
  cases call with
  | propose c =>
      obtain ⟨⟨log, id, actions⟩, hpropose, rfl⟩ := map_eq_ok_iff.1 hanswer
      exact ⟨h.propose_obeys hd hl hs hpropose, List.nil_subset _⟩
  | deliver sender m =>
      obtain ⟨⟨log, actions⟩, hhandle, rfl⟩ := map_eq_ok_iff.1 hanswer
      obtain ⟨q, hq, hpursue⟩ := bind_eq_ok_iff.1 hhandle
      have hfollows : Progress.Follows (fun _ _ => True) (fun _ => True) l q :=
        onMessage_follows hl hs trivial hq
      have hobeys : q.Obeys (h.allowance (.deliver sender m)) :=
        onMessage_obeys (h.obeys hd fun _ _ => rfl)
          (fun b s promised hm => truthful sender b s promised (congrArg _ hm))
          (fun p reason current ends => h.excuses current ends) hq
      exact ⟨pursue_obeys (hl.moves hfollows.moves) hobeys hpursue, List.nil_subset _⟩
  | expire t =>
      obtain ⟨⟨log, actions⟩, hpursue, rfl⟩ := map_eq_ok_iff.1 hanswer
      have hfollows : Progress.Follows (fun _ _ => True) (fun _ => True) l (l.onTimer t) :=
        onTimer_follows hs
      exact ⟨pursue_obeys (hl.moves hfollows.moves) (h.onTimer_obeys hd t) hpursue,
        List.nil_subset _⟩
  | drainApplicable =>
      obtain ⟨⟨log, ready⟩, hdrain, rfl⟩ := map_eq_ok_iff.1 hanswer
      obtain ⟨stop, _, rfl⟩ := drainApplicable_eq_ok hdrain
      exact ⟨(h.obeys hd fun _ _ => rfl).of_frame rfl rfl rfl rfl, List.nil_subset _⟩
  | requestCatchUp =>
      obtain ⟨said, _, rfl⟩ := map_eq_ok_iff.1 hanswer
      exact ⟨h.obeys hd fun _ _ => rfl, List.nil_subset _⟩
  | takeCompletions =>
      cases hanswer
      have hobeys : l.Obeys (h.allowance .takeCompletions) none := h.obeys hd fun _ _ => rfl
      exact ⟨⟨⟨h.policy, hobeys.affords.waiting, fun _ hx => (by cases hx)⟩, hobeys.counted,
        hobeys.within, hobeys.paused⟩, List.Subset.refl _⟩
  | repartition partition =>
      cases hanswer
      exact ⟨(h.obeys hd fun _ _ => rfl).of_frame rfl rfl rfl rfl, List.nil_subset _⟩

theorem one_le_charged (h : l.Frugal limit) (call : Call) (id : ProposalId) :
    1 ≤ (h.allowance call).charged id := by
  unfold allowance
  dsimp only
  split
  · next p current =>
    split
    · have hone := UInt32.le_iff_toNat_le.1 (h.within p current).1
      exact le_trans hone (Nat.le_add_right _ _)
    · exact Nat.le_refl 1
  · exact Nat.le_refl 1

/-- A log that keeps to an allowance is frugal once again. -/
theorem of_obeys (h : l.Frugal limit) (hobeys : l'.Obeys (h.allowance call) none) :
    l'.Frugal limit where
  policy := hobeys.affords.limit
  positive := h.positive
  within p current := by
    have hcount : p.attempts.toNat = _ := hobeys.counted p current
    have hle := hobeys.within p current
    rw [UInt32.le_iff_toNat_le, UInt32.le_iff_toNat_le, hcount]
    exact ⟨h.one_le_charged call p.id, hle⟩
  paused := hobeys.paused rfl

end Frugal

/-- Whoever refuses a ballot has promised a higher one. -/
theorem Moves.lt_of_nack {heard : ReplicaId → Message → Prop} {wanted : Command → Prop}
    {ready : List LogEntry} {receiver : ReplicaId} (h : Moves heard wanted l actions ready l')
    (hm : Action.send receiver (.nack b s promised) ∈ actions) : b < promised := by
  induction h with
  | refl => cases hm
  | move _ _ ih => exact ih hm
  | say truthful _ ih => exact (List.mem_append.1 hm).elim (truthful receiver _) ih

end ReplicatedLog

namespace Group

open ReplicatedLog (Frugal)

variable {g : Group} {turns : List Turn} {w : World ReplicatedLog} {r sender : ReplicaId} {t : Turn}
  {s : Slot} {b promised : Ballot} {x : Completion} {limit : UInt32}

theorem Run.lt_of_nack (hrun : g.Run g.start turns w)
    (hm : w.Heard r sender (.nack b s promised)) : b < promised := by
  induction hrun with
  | rest => cases hm
  | turn earlier taken ih =>
      obtain ⟨hmoves, _⟩ := taken.moves (earlier.steady g.steady_start)
      rcases List.mem_append.1 hm with hm | hm
      · exact ih hm
      · exact hmoves.lt_of_nack (World.mem_envelopes.1 hm).2

theorem Takes.obeys (ht : g.Takes w t) (hrun : g.Run g.start turns w)
    (h : (w.machine t.replica).Frugal limit) :
    t.reply.log.Obeys (h.allowance t.call) none ∧
      t.reply.completions ⊆ (w.machine t.replica).completions := by
  have hsteady := hrun.steady g.steady_start
  obtain ⟨docket, hcompletes, _⟩ := hrun.completes t.replica
  refine h.answer_obeys hcompletes.distinct (hsteady.coherent _) (hsteady.settled _) ?_ ht.answered
  exact fun sender b s promised hcall => hrun.lt_of_nack (ht.told sender _ hcall)

theorem Run.frugal (hrun : g.Run g.start turns w) (hmax : 1 ≤ (g.policy r).maxAttempts) :
    (w.machine r).Frugal (g.policy r).maxAttempts := by
  induction hrun with
  | rest => exact ReplicatedLog.frugal_fresh _ hmax
  | @turn turns t w' earlier taken ih =>
      by_cases hr : t.replica = r
      · subst hr
        rw [World.machine_update_self]
        exact ih.of_obeys (taken.obeys earlier ih).1
      · rw [World.machine_update_of_ne (Ne.symm hr)]
        exact ih

/-- A turn charges a proposal its first attempt, and another one only if its timer has run out.  An
attempt that a proposal begins without it, since its slot was taken, is free. -/
structure Turn.ChargesFairly (t : Turn) (before : ReplicatedLog) : Prop where
  first : ∀ p, t.reply.log.active = some p → (∀ p₀, before.active = some p₀ → p₀.id ≠ p.id) →
    p.attempts = 1
  further : ∀ p₀ p, before.active = some p₀ → t.reply.log.active = some p → p.id = p₀.id →
    p.attempts.toNat = p₀.attempts.toNat + t.call.charges p₀

theorem Takes.chargesFairly (ht : g.Takes w t) (hrun : g.Run g.start turns w)
    (h : (w.machine t.replica).Frugal limit) : t.ChargesFairly (w.machine t.replica) := by
  obtain ⟨hobeys, _⟩ := ht.obeys hrun h
  constructor
  · intro p current hnew
    have hcount : p.attempts.toNat = _ := hobeys.counted p current
    rw [h.charged_of_ne hnew] at hcount
    exact UInt32.toNat_inj.1 hcount
  · intro p₀ p before current hid
    have hcount : p.attempts.toNat = _ := hobeys.counted p current
    rw [hid, h.charged_self before] at hcount
    exact hcount

/-- A proposal that loses the first slot to another command goes on with the next one, still with
one attempt charged to it. -/
example : ∃ reply reply',
    (pair.start.machine ⟨1⟩).answer (.propose (.commit ⟨7⟩)) = .ok reply ∧
      reply.log.answer (.deliver ⟨2⟩ (.chosen ⟨.first, ⟨1, ⟨2⟩⟩, .abort ⟨7⟩⟩)) = .ok reply' ∧
      reply'.log.active.map (fun p => (p.slot, p.attempt, p.attempts)) = some (⟨1⟩, 1, 1) :=
  ⟨_, _, rfl, rfl, rfl⟩

variable (g) in
/-- Whether a completion is that of a proposal which some turn gave up, after all the attempts that
are allowed. -/
def GivenUpIn (turns : List Turn) (r : ReplicaId) (x : Completion) : Prop :=
  ∃ earlier t later w p reason, turns = earlier ++ t :: later ∧ g.Run g.start earlier w ∧
    t.replica = r ∧ (w.machine r).active = some p ∧ x = ⟨p.id, p.command, .error reason⟩ ∧
    p.attempts = (g.policy r).maxAttempts ∧ p.GivesUp t.call reason

theorem GivenUpIn.later (h : g.GivenUpIn turns r x) (t : Turn) :
    g.GivenUpIn (turns ++ [t]) r x := by
  obtain ⟨earlier, t', later, w, p, reason, rfl, hturn⟩ := h
  exact ⟨earlier, t', later ++ [t], w, p, reason, by simp, hturn⟩

theorem Run.givenUp (hrun : g.Run g.start turns w) (hmax : 1 ≤ (g.policy r).maxAttempts)
    (hx : x ∈ produced turns w r) {reason : LedgerError} (hreason : x.result = .error reason) :
    g.GivenUpIn turns r x := by
  induction hrun with
  | rest => cases hx
  | @turn turns t w' earlier taken ih =>
      by_cases hr : t.replica = r
      · subst hr
        have hfrugal := earlier.frugal hmax
        obtain ⟨hobeys, hhanded⟩ := taken.obeys earlier hfrugal
        have hold (hx : x ∈ (w'.machine t.replica).completions) :
            g.GivenUpIn (turns ++ [t]) t.replica x :=
          (ih (List.mem_append_right _ hx)).later t
        rw [produced, World.machine_update_self] at hx
        rcases List.mem_append.1 hx with hx | hx
        · simp only [handedOver, List.filter_append, List.flatMap_append] at hx
          rcases List.mem_append.1 hx with hx | hx
          · exact (ih (List.mem_append_left _ hx)).later t
          · exact hold (hhanded (by simpa using hx))
        · rcases hobeys.affords.failed x hx reason hreason with hx | ⟨p, reason, hgiven⟩
          · exact hold hx
          · exact ⟨turns, t, [], w', p, reason, rfl, earlier, rfl, hgiven⟩
      · rw [produced, World.machine_update_of_ne (Ne.symm hr)] at hx
        refine (ih ?_).later t
        simpa [produced, handedOver, hr] using hx

theorem Run.chargesFairly (hrun : g.Run g.start turns w) (hmax : 1 ≤ (g.policy r).maxAttempts)
    {earlier later : List Turn} (hturns : turns = earlier ++ t :: later) (hr : t.replica = r) :
    ∃ w₀, g.Run g.start earlier w₀ ∧ t.ChargesFairly (w₀.machine r) := by
  obtain ⟨w₀, before, taken, _⟩ := hrun.interrupt hturns
  subst hr
  exact ⟨w₀, before, taken.chargesFairly before (before.frugal hmax)⟩

variable (g) in
/-- How a replica's log uses the attempts that its policy allows. -/
structure KeepsAllowance (turns : List Turn) (w : World ReplicatedLog) (r : ReplicaId) :
    Prop where
  /-- At least one attempt is charged to the active proposal, and no more than are allowed. -/
  within : ∀ p, (w.machine r).active = some p →
    1 ≤ p.attempts ∧ p.attempts ≤ (g.policy r).maxAttempts
  /-- No turn so far charged more than it should. -/
  charged : ∀ earlier t later, turns = earlier ++ t :: later → t.replica = r →
    ∃ w₀, g.Run g.start earlier w₀ ∧ t.ChargesFairly (w₀.machine r)
  /-- Whatever failed was given up with all its attempts charged: because the last one ran out of
  time, or because of a promise above its ballot. -/
  failed : ∀ x ∈ produced turns w r, ∀ reason, x.result = .error reason → g.GivenUpIn turns r x
  /-- What is reported for want of a majority is the number of attempts that are allowed. -/
  reported : ∀ x ∈ produced turns w r, ∀ attempts,
    x.result = .error (.quorumUnavailable attempts) → attempts = (g.policy r).maxAttempts

/-- A log that may try at all tries no proposal more often than it may, and gives none up before. -/
theorem attempts_within_allowance (hrun : g.Run g.start turns w)
    (hmax : 1 ≤ (g.policy r).maxAttempts) : g.KeepsAllowance turns w r where
  within := (hrun.frugal hmax).within
  charged _ _ _ hturns hr := hrun.chargesFairly hmax hturns hr
  failed _ hx _ hreason := hrun.givenUp hmax hx hreason
  reported x hx attempts hreason := by
    obtain ⟨_, _, _, _, p, reason, _, _, _, _, rfl, hspent, hends⟩ := hrun.givenUp hmax hx hreason
    cases hreason
    exact hends.attempts_eq.trans hspent

/-- Two replicas that try every proposal once. -/
def impatientPair : Group :=
  { pair with policy := fun _ => ({} : ConsensusPolicy).withMaxAttempts 0 }

/-- The second replica refuses the first one's attempt, since it has begun its own. -/
def refusing : List (ReplicaId × ReplicatedLog.Call) :=
  [(⟨1⟩, .propose (.commit ⟨7⟩)), (⟨2⟩, .propose (.abort ⟨7⟩)),
    (⟨2⟩, .deliver ⟨1⟩ (.prepare ⟨1, ⟨1⟩⟩ .first)),
    (⟨1⟩, .deliver ⟨2⟩ (.nack ⟨1, ⟨1⟩⟩ .first ⟨1, ⟨2⟩⟩))]

/-- A replica that is refused its only attempt reports the promise of the other one. -/
theorem attempts_within_allowance_pair : ∃ turns w, impatientPair.Run impatientPair.start turns w ∧
    1 ≤ (impatientPair.policy ⟨1⟩).maxAttempts ∧
      (produced turns w ⟨1⟩).map (·.result) = [.error (.staleBallot ⟨1, ⟨2⟩⟩)] ∧
      impatientPair.KeepsAllowance turns w ⟨1⟩ := by
  have hrun := impatientPair.run_callAll impatientPair.start refusing
  have hmax : 1 ≤ (impatientPair.policy ⟨1⟩).maxAttempts :=
    ConsensusPolicy.withMaxAttempts_pos {} 0
  exact ⟨_, _, hrun, hmax, by decide +kernel, attempts_within_allowance hrun hmax⟩

end Group

end ReplicatedLedger
