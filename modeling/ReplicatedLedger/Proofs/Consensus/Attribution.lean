import ReplicatedLedger.Proofs.Consensus.Contiguity
import ReplicatedLedger.Proofs.Consensus.Submission

/-!
Every chosen command is owed to a proposal of it, and no proposal has its command chosen twice.  A
proposal may leave its command behind on a slot, but it offers it for another one only when one of
the two is known to have gone to another command.
-/

namespace ReplicatedLedger

namespace ReplicatedLog

variable {heard : ReplicaId → Message → Prop} {wanted : Command → Prop} {l l' : ReplicatedLog}
  {ready : List LogEntry} {offered : ProposalId → Slot → Command → Prop} {id : ProposalId}
  {s s' : Slot} {c c' : Command} {p : Proposal}

/-! ### What moves leave of the submissions -/

/-- A move that submits nothing leaves no submission but those there were. -/
theorem Move.undecided_sublist (h : Move heard (fun _ => False) l ready l') :
    l'.undecided.Sublist l.undecided := by
  cases h with
  | hear | win => rw [undecided_learn]
  | submit due => exact due.elim
  | promote idle first =>
      rw [undecided_of_idle idle, first, undecided_of_active rfl]
      exact .refl _
  | finish current found =>
      rw [undecided_of_active current, undecided_of_idle rfl]
      exact List.sublist_cons_self _ _
  | pause current | reopen _ current | countPromise current | ask current | countVote current =>
      rw [undecided_of_active current]
      exact .refl _
  | _ => exact .refl _

theorem Move.waiting_subset (h : Move heard (fun _ => False) l ready l') :
    l'.waiting ⊆ l.waiting := by
  cases h with
  | hear | win => rw [waiting_learn]; exact fun _ hx => hx
  | submit due => exact due.elim
  | promote idle first => rw [first]; exact List.subset_cons_self _ _
  | _ => exact fun _ hx => hx

/-- The active proposal goes on with the same submission, or it has just been begun. -/
theorem Move.active_source (h : Move heard wanted l ready l') (hp : l'.active = some p) :
    (∃ q, l.active = some q ∧ q.submission = p.submission) ∨ p.submission ∈ l.waiting := by
  cases h with
  | hear | win => rw [active_learn] at hp; exact .inl ⟨p, hp, rfl⟩
  | promote idle first => cases hp; rw [first]; exact .inr List.mem_cons_self
  | finish => cases hp
  | pause current | reopen _ current | countPromise current | ask current | countVote current =>
      cases hp
      exact .inl ⟨_, current, rfl⟩
  | _ => exact .inl ⟨p, hp, rfl⟩

/-! ### The offers of a log -/

/-- Whether another command than `c` is known to be chosen for a slot. -/
def Lost (l : ReplicatedLog) (s : Slot) (c : Command) : Prop :=
  ∃ e, l.chosenAt? s = some e ∧ e.command ≠ c

/-- Whether the log may ask for a command on a slot, for the proposal with an id. -/
def Offering (l : ReplicatedLog) (id : ProposalId) (s : Slot) (c : Command) : Prop :=
  ∃ p, l.Offers p ∧ p.id = id ∧ p.slot = s ∧ p.command = c

/-- A log that has offered commands under the ids of its submissions, a submission in turn after
the other.  Of any two slots offered to one, it knows at least one to be lost. -/
structure Offered (offered : ProposalId → Slot → Command → Prop) (l : ReplicatedLog) : Prop where
  numbered : ∀ x ∈ l.undecided, x.id.number < l.nextProposal
  distinct : l.undecided.Pairwise fun x y => x.id ≠ y.id
  past : ∀ id s c, offered id s c → id.number < l.nextProposal
  waiting : ∀ x ∈ l.waiting, ∀ s c, ¬ offered x.id s c
  active : ∀ p, l.active = some p → ∀ s c, offered p.id s c →
    c = p.command ∧ p.floor ≤ s ∧ l.KnowsBelow s
  apart : ∀ id s s' c c', offered id s c → offered id s' c' → s ≠ s' → l.Lost s c ∨ l.Lost s' c'

theorem Lost.grows (h : l.Lost s c) (hg : l.Grows l') : l'.Lost s c := by
  obtain ⟨e, he, hne⟩ := h
  exact ⟨e, hg.chosen s e he, hne⟩

/-- A known slot is lost to a proposal that still has to have its command chosen. -/
theorem Offers.lost (offers : l.Offers p) (hl : l.Coherent) (hle : p.floor ≤ s)
    (known : ∃ e, l.chosenAt? s = some e) : l.Lost s p.command := by
  obtain ⟨e, he⟩ := known
  refine ⟨e, he, fun hcommand => ?_⟩
  have hlt := (chosenSince?_eq_none_iff hl.indexed).1 offers.since s e he hcommand
  rw [Slot.le_iff_toNat] at hle
  rw [Slot.lt_iff_toNat] at hlt
  omega

theorem offered_fresh (t : Topology) (policy : ConsensusPolicy) :
    Offered (fun _ _ _ => False) { topology := t, policy := policy } where
  numbered x hx := by cases hx
  distinct := .nil
  past _ _ _ h := h.elim
  waiting x hx := by cases hx
  active p hp := by cases hp
  apart _ _ _ _ _ h := h.elim

namespace Offered

/-- An offer that is made now, next to one made before. -/
theorem lost_of_offers (h : l.Offered offered) (hl : l.Coherent) (hroot : l.Rooted)
    (offers : l.Offers p) (hold : offered p.id s c) (hne : s ≠ p.slot) :
    l.Lost s c ∨ l.Lost p.slot p.command := by
  obtain ⟨rfl, hle, hbelow⟩ := h.active p offers.current s c hold
  obtain ⟨hle', hbelow'⟩ := hroot.aimed p offers.current offers.underway
  have hindex := mt Slot.toNat_inj.1 hne
  -- the earlier of the two slots is known, whichever it is
  rcases Nat.lt_or_gt_of_ne hindex with hlt | hgt
  · exact .inl (offers.lost hl hle (hbelow' s (Slot.lt_iff_toNat.2 hlt)))
  · exact .inr (offers.lost hl hle' (hbelow p.slot (Slot.lt_iff_toNat.2 hgt)))

/-- The log as it stands may add its offer to those it has made. -/
theorem offer (h : l.Offered offered) (hl : l.Coherent) (hroot : l.Rooted) :
    l.Offered fun id s c => offered id s c ∨ l.Offering id s c where
  numbered := h.numbered
  distinct := h.distinct
  past := by
    rintro id s c (hold | ⟨p, offers, rfl, rfl, rfl⟩)
    · exact h.past id s c hold
    · refine h.numbered p.submission ?_
      rw [undecided_of_active offers.current]
      exact List.mem_cons_self
  waiting := by
    rintro x hx s c (hold | ⟨p, offers, hid, rfl, rfl⟩)
    · exact h.waiting x hx s c hold
    · have hdistinct := h.distinct
      rw [undecided_of_active offers.current] at hdistinct
      exact (List.pairwise_cons.1 hdistinct).1 x hx hid
  active := by
    rintro q hq s c (hold | ⟨p, offers, hid, rfl, rfl⟩)
    · exact h.active q hq s c hold
    · have hsame : some q = some p := hq.symm.trans offers.current
      cases hsame
      exact ⟨rfl, hroot.aimed q offers.current offers.underway⟩
  apart := by
    rintro id s s' c c' (hold | ⟨p, offers, rfl, rfl, rfl⟩) (hold' | ⟨p', offers', hid, rfl, rfl⟩) hne
    · exact h.apart id s s' c c' hold hold' hne
    · subst hid
      exact h.lost_of_offers hl hroot offers' hold hne
    · exact (h.lost_of_offers hl hroot offers hold' (Ne.symm hne)).symm
    · have hsame : some p = some p' := offers.current.symm.trans offers'.current
      cases hsame
      exact absurd rfl hne

theorem move (h : l.Offered offered) (hmove : Move heard (fun _ => False) l ready l') :
    l'.Offered offered where
  numbered x hx :=
    UInt64.lt_of_lt_of_le (h.numbered x (hmove.undecided_sublist.subset hx)) hmove.nextProposal_le
  distinct := h.distinct.sublist hmove.undecided_sublist
  past id s c hold := UInt64.lt_of_lt_of_le (h.past id s c hold) hmove.nextProposal_le
  waiting x hx := h.waiting x (hmove.waiting_subset hx)
  active p hp s c hold := by
    rcases hmove.active_source hp with ⟨q, hq, hsame⟩ | hbegun
    · have hid : q.id = p.id := congrArg Submission.id hsame
      have hcommand : q.command = p.command := congrArg Submission.command hsame
      have hfloor : q.floor = p.floor := congrArg Submission.floor hsame
      rw [← hid] at hold
      obtain ⟨hc, hle, hbelow⟩ := h.active q hq s c hold
      rw [← hcommand, ← hfloor]
      exact ⟨hc, hle, hbelow.grows hmove.grows⟩
    · exact absurd hold (h.waiting p.submission hbegun s c)
  apart id s s' c c' hold hold' hne :=
    (h.apart id s s' c c' hold hold' hne).imp (·.grows hmove.grows) (·.grows hmove.grows)

/-- A further submission gets an id under which nothing has been offered. -/
theorem submit {next : Word} (h : l.Offered offered) (c : Command)
    (counted : Word.sum l.nextProposal 1 = .ok next) : (l.submitted c next).Offered offered := by
  have hundecided : (l.submitted c next).undecided =
      l.undecided ++ [⟨⟨l.nextProposal⟩, c, l.nextApply⟩] := by
    unfold undecided submitted
    rw [List.append_assoc]
  have hlater := Word.lt_of_sum_one counted
  constructor
  case numbered =>
    rw [hundecided]
    intro x hx
    show x.id.number < next
    rcases List.mem_append.1 hx with hold | hnew
    · exact UInt64.lt_trans (h.numbered x hold) hlater
    · rw [List.mem_singleton.1 hnew]
      exact hlater
  case distinct =>
    rw [hundecided, List.pairwise_append]
    refine ⟨h.distinct, List.pairwise_singleton _ _, fun x hx y hy hid => ?_⟩
    have hlt := h.numbered x hx
    rw [hid, List.mem_singleton.1 hy] at hlt
    exact UInt64.lt_irrefl _ hlt
  case past => exact fun id s c hold => UInt64.lt_trans (h.past id s c hold) hlater
  case waiting =>
    intro x hx s c' hold
    rcases List.mem_append.1 hx with hwaiting | hnew
    · exact h.waiting x hwaiting s c' hold
    · rw [List.mem_singleton.1 hnew] at hold
      exact UInt64.lt_irrefl _ (h.past _ s c' hold)
  case active => exact h.active
  case apart => exact h.apart

end Offered

end ReplicatedLog

namespace Group

open ReplicatedLog (Move Moves)

/-- The command that a turn asks the group to have chosen. -/
def Turn.proposed? (t : Turn) : Option Command :=
  match t.call with
  | .propose c => some c
  | _ => none

/-- Whether a call of `propose` returned a proposal of a command. -/
def Proposed (turns : List Turn) (r : ReplicaId) (id : ProposalId) (c : Command) : Prop :=
  ∃ t ∈ turns, t.replica = r ∧ t.proposed? = some c ∧ t.reply.proposal? = some id

/-- Whether a command is chosen for a slot anywhere: a replica knows of it, or a majority has voted
for it. -/
def Chosen (g : Group) (w : World ReplicatedLog) (s : Slot) (c : Command) : Prop :=
  (∃ r e, (w.machine r).chosenAt? s = some e ∧ e.command = c) ∨ ∃ b, g.Elected w ⟨s, b, c⟩

/-- A group all whose values are owed to what its logs offered, and that to what was proposed. -/
structure Attributed (g : Group) (turns : List Turn)
    (offered : ReplicaId → ProposalId → Slot → Command → Prop) (w : World ReplicatedLog) :
    Prop where
  contiguous : g.Contiguous w
  logs : ∀ r, (w.machine r).Offered (offered r)
  sources : ∀ s c, Stands w s c → ∃ r id, offered r id s c
  submitted : ∀ r, ∀ x ∈ (w.machine r).undecided, Proposed turns r x.id x.command
  owed : ∀ r id s c, offered r id s c → Proposed turns r id c

variable {g : Group} {w : World ReplicatedLog} {r : ReplicaId} {l' : ReplicatedLog}
  {said : List Action} {ready : List LogEntry} {heard : ReplicaId → Message → Prop}
  {wanted : Command → Prop} {turns : List Turn} {t : Turn} {s : Slot} {c : Command}
  {offered : ReplicaId → ProposalId → Slot → Command → Prop}

theorem Proposed.later {id : ProposalId} (h : Proposed turns r id c) (t : Turn) :
    Proposed (turns ++ [t]) r id c := by
  obtain ⟨t', ht', hturn⟩ := h
  exact ⟨t', List.mem_append_left _ ht', hturn⟩

theorem Sound.elected_of_chosen (h : g.Sound w) (hs : g.Chosen w s c) :
    ∃ b, g.Elected w ⟨s, b, c⟩ := by
  rcases hs with ⟨r, e, he, rfl⟩ | helected
  · obtain ⟨rfl, helected⟩ := h.chosen r s e he
    exact ⟨e.ballot, helected⟩
  · exact helected

/-- Nothing that is chosen is lost. -/
theorem Sound.not_lost (h : g.Sound w) (hs : g.Chosen w s c) : ¬ (w.machine r).Lost s c := by
  rintro ⟨e, he, hne⟩
  obtain ⟨b, helected⟩ := h.elected_of_chosen hs
  obtain ⟨rfl, helected'⟩ := h.chosen r s e he
  exact hne (h.agree helected' helected)

theorem attributed_start (g : Group) : g.Attributed [] (fun _ _ _ _ => False) g.start where
  contiguous := g.contiguous_start
  logs _ := ReplicatedLog.offered_fresh _ _
  sources _ _ h := absurd h (not_stands_start g)
  submitted _ _ h := by cases h
  owed _ _ _ _ h := h.elim

namespace Attributed

theorem later (h : g.Attributed turns offered w) (t : Turn) :
    g.Attributed (turns ++ [t]) offered w where
  contiguous := h.contiguous
  logs := h.logs
  sources := h.sources
  submitted r x hx := (h.submitted r x hx).later t
  owed r id s c ho := (h.owed r id s c ho).later t

/-- The log of a member may add its offer to those made. -/
theorem offer (h : g.Attributed turns offered w) (hl : (w.machine r).Coherent) :
    ∃ offered', g.Attributed turns offered' w ∧
      (∀ q id s c, offered q id s c → offered' q id s c) ∧
      ∀ id s c, (w.machine r).Offering id s c → offered' r id s c := by
  refine ⟨fun q id s c => offered q id s c ∨ q = r ∧ (w.machine r).Offering id s c, ?_,
    fun _ _ _ _ hold => .inl hold, fun _ _ _ hnew => .inr ⟨rfl, hnew⟩⟩
  constructor
  case contiguous => exact h.contiguous
  case logs =>
    intro q
    by_cases hq : q = r
    · subst hq
      simpa using (h.logs q).offer hl (h.contiguous.rooted q)
    · simpa [hq] using h.logs q
  case sources =>
    intro s c hs
    obtain ⟨q, id, hold⟩ := h.sources s c hs
    exact ⟨q, id, .inl hold⟩
  case submitted => exact h.submitted
  case owed =>
    rintro q id s c (hold | ⟨rfl, p, offers, rfl, rfl, rfl⟩)
    · exact h.owed q id s c hold
    · refine h.submitted q p.submission ?_
      rw [ReplicatedLog.undecided_of_active offers.current]
      exact List.mem_cons_self

/-- A move of a member brings up a value only on the strength of an offer. -/
theorem advance (h : g.Attributed turns offered w) (hw : g.Sound w) (hr : r ∈ g.members)
    (hl : (w.machine r).Coherent) (hheard : ∀ sender m, heard sender m → w.Heard r sender m)
    (hmove : Move heard wanted (w.machine r) ready l')
    (hoffered : ∀ own, (w.machine r).Offered own → l'.Offered own)
    (hsubmitted : ∀ x ∈ l'.undecided, Proposed turns r x.id x.command) :
    ∃ offered', g.Attributed turns offered' (w.update r l' []) := by
  obtain ⟨offered', hoffer, hold, hnew⟩ := h.offer hl
  refine ⟨offered', ?_, ?_, fun s c hs => ?_, ?_, hoffer.owed⟩
  · exact hoffer.contiguous.move hw hr hl hheard hmove
  · exact World.forall_machine_update
      (P := fun q (l : ReplicatedLog) => l.Offered (offered' q)) hoffer.logs
      (hoffered _ (hoffer.logs r))
  · rcases hw.stands_move hheard hmove hs with hstands | ⟨p, offers, hslot, hcommand⟩
    · exact hoffer.sources s c hstands
    · exact ⟨r, p.id, hnew p.id s c ⟨p, offers, rfl, hslot, hcommand⟩⟩
  · exact World.forall_machine_update
      (P := fun q (l : ReplicatedLog) => ∀ x ∈ l.undecided, Proposed turns q x.id x.command)
      hoffer.submitted hsubmitted

theorem say (h : g.Attributed turns offered w)
    (truthful : ∀ receiver m, Action.send receiver m ∈ said → (w.machine r).MaySay m) :
    g.Attributed turns offered (w.update r (w.machine r) said) where
  contiguous := h.contiguous.say truthful
  logs := World.forall_machine_update
    (P := fun q (l : ReplicatedLog) => l.Offered (offered q)) h.logs (h.logs r)
  sources s c hs := h.sources s c (Sound.stands_say truthful hs)
  submitted := World.forall_machine_update
    (P := fun q (l : ReplicatedLog) => ∀ x ∈ l.undecided, Proposed turns q x.id x.command)
    h.submitted (h.submitted r)
  owed := h.owed

/-- A step in which nothing is submitted. -/
theorem moves {actions : List Action} (h : ∃ offered, g.Attributed turns offered w)
    (hw : g.Sound w) (hr : r ∈ g.members) (hl : (w.machine r).Coherent)
    (hheard : ∀ sender m, heard sender m → w.Heard r sender m)
    (hmoves : Moves heard (fun _ => False) (w.machine r) actions ready l') :
    ∃ offered, g.Attributed turns offered (w.update r l' actions) := by
  refine hw.moves_induction (I := fun w => ∃ offered, g.Attributed turns offered w) hr ?_ ?_ hl h
    hheard hmoves
  · rintro w l' ready hw hl ⟨offered, hi⟩ hheard hmove
    exact hi.advance hw hr hl hheard hmove (fun _ ho => ho.move hmove)
      (fun x hx => hi.submitted r x (hmove.undecided_sublist.subset hx))
  · rintro w said ⟨offered, hi⟩ truthful
    exact ⟨offered, hi.say truthful⟩

theorem submit {next : Word} (h : g.Attributed turns offered w) (hw : g.Sound w)
    (hr : r ∈ g.members) (hl : (w.machine r).Coherent)
    (counted : Word.sum (w.machine r).nextProposal 1 = .ok next)
    (hproposed : Proposed turns r ⟨(w.machine r).nextProposal⟩ c) :
    ∃ offered', g.Attributed turns offered' (w.update r ((w.machine r).submitted c next) []) := by
  have hmove : Move (w.Heard r) (· = c) (w.machine r) [] ((w.machine r).submitted c next) :=
    .submit rfl counted
  refine h.advance hw hr hl (fun _ _ hm => hm) hmove (fun _ ho => ho.submit c counted)
    fun x hx => ?_
  rcases List.mem_append.1 hx with hactive | hwaiting
  · exact h.submitted r x (List.mem_append_left _ hactive)
  · rcases List.mem_append.1 hwaiting with hold | hnew
    · exact h.submitted r x (List.mem_append_right _ hold)
    · rw [List.mem_singleton.1 hnew]
      exact hproposed

theorem propose {log : ReplicatedLog} {id : ProposalId} {actions : List Action}
    (h : g.Attributed turns offered w) (hw : g.Steady w) (hr : r ∈ g.members)
    (hpropose : (w.machine r).propose c = .ok (log, id, actions))
    (hproposed : Proposed turns r id c) :
    ∃ offered', g.Attributed turns offered' (w.update r log actions) := by
  have hl := hw.coherent r
  obtain ⟨_, _, rfl, _⟩ := ReplicatedLog.propose_eq_ok hpropose
  obtain ⟨next, counted, hrest⟩ : ∃ next, _ ∧ ReplicatedLog.Progress.Follows (w.Heard r)
      (fun _ => False) ((w.machine r).submitted c next) _ :=
    ReplicatedLog.propose_follows hl (hw.settled r) hpropose
  have hsubmit : Move (w.Heard r) (· = c) (w.machine r) [] ((w.machine r).submitted c next) :=
    .submit rfl counted
  have hlog : (w.update r ((w.machine r).submitted c next) []).machine r =
      (w.machine r).submitted c next := World.machine_update_self
  have hstep := Attributed.moves (h.submit hw.sound hr hl counted hproposed)
    (hw.sound.move hr (fun _ _ hm => hm) hsubmit) hr (by rw [hlog]; exact hl.move hsubmit)
    (fun sender m hm => World.heard_update hm) (by rw [hlog]; exact hrest.moves)
  rw [World.update_update] at hstep
  exact hstep

end Attributed

/-- A turn that proposes is a submission and a step; all others are steps. -/
theorem Takes.attributed (ht : g.Takes w t) (hw : g.Steady w)
    (h : ∃ offered, g.Attributed turns offered w) :
    ∃ offered, g.Attributed (turns ++ [t]) offered
      (w.update t.replica t.reply.log t.reply.actions) := by
  obtain ⟨offered, h⟩ := h
  have hl := hw.coherent t.replica
  have hs := hw.settled t.replica
  have hanswered := ht.answered
  cases hcall : t.call with
  | propose c =>
      rw [hcall] at hanswered
      obtain ⟨⟨log, id, actions⟩, hpropose, hreply⟩ := map_eq_ok_iff.1 hanswered
      rw [← hreply]
      refine (h.later t).propose hw ht.member hpropose ?_
      exact ⟨t, List.mem_append_right _ List.mem_cons_self, rfl, by rw [Turn.proposed?, hcall],
        by rw [← hreply]⟩
  | _ =>
      have silent : ∀ c, t.call = .propose c → False := fun c hc => by
        rw [hcall] at hc
        cases hc
      obtain ⟨hmoves, _⟩ := ReplicatedLog.answer_moves hl hs ht.told silent ht.answered
      exact Attributed.moves ⟨offered, h.later t⟩ hw.sound ht.member hl (fun _ _ hm => hm) hmoves

theorem Run.attributed (hrun : g.Run g.start turns w) :
    ∃ offered, g.Attributed turns offered w := by
  induction hrun with
  | rest => exact ⟨_, g.attributed_start⟩
  | turn earlier taken ih => exact taken.attributed (earlier.steady g.steady_start) ih

/-- Each chosen command was proposed, and different slots are owed to different proposals.  So a
command is chosen for no more slots than there were proposals of it. -/
theorem chosen_by_proposal (hrun : g.Run g.start turns w) :
    (∃ source : Slot → Command → Turn, ∀ s c, g.Chosen w s c →
      (source s c ∈ turns ∧ (source s c).proposed? = some c) ∧
      ∀ s' c', g.Chosen w s' c' → (source s c).replica = (source s' c').replica →
        (source s c).reply.proposal? = (source s' c').reply.proposal? → s = s') ∧
    ∀ c (slots : List Slot), slots.Nodup → (∀ s ∈ slots, g.Chosen w s c) →
      slots.length ≤ turns.countP (fun t => t.proposed? = some c) := by
  have hsound : g.Sound w := (hrun.steady g.steady_start).sound
  obtain ⟨offered, h⟩ := hrun.attributed
  have hsource : ∀ s c, ∃ t : Turn, g.Chosen w s c → (t ∈ turns ∧ t.proposed? = some c) ∧
      ∃ id, t.reply.proposal? = some id ∧ offered t.replica id s c := by
    intro s c
    by_cases hs : g.Chosen w s c
    · obtain ⟨b, helected⟩ := hsound.elected_of_chosen hs
      obtain ⟨r, id, ho⟩ := h.sources s c helected.stands
      obtain ⟨t, ht, rfl, hproposed, hid⟩ := h.owed r id s c ho
      exact ⟨t, fun _ => ⟨⟨ht, hproposed⟩, id, hid, ho⟩⟩
    · exact ⟨⟨⟨0⟩, .drainApplicable, { log := w.machine ⟨0⟩ }⟩, fun hchosen => absurd hchosen hs⟩
  choose source hsource using hsource
  have hinjective : ∀ s c, g.Chosen w s c → ∀ s' c', g.Chosen w s' c' →
      (source s c).replica = (source s' c').replica →
      (source s c).reply.proposal? = (source s' c').reply.proposal? → s = s' := by
    intro s c hs s' c' hs' hreplica hproposal
    obtain ⟨_, id, hid, ho⟩ := hsource s c hs
    obtain ⟨_, id', hid', ho'⟩ := hsource s' c' hs'
    rw [hid, hid'] at hproposal
    cases hproposal
    rw [← hreplica] at ho'
    -- one of two slots would be known to have gone to another command
    by_contra hne
    rcases (h.logs _).apart id s s' c c' ho ho' hne with hlost | hlost
    · exact hsound.not_lost hs hlost
    · exact hsound.not_lost hs' hlost
  refine ⟨⟨source, fun s c hs => ⟨(hsource s c hs).1, hinjective s c hs⟩⟩, ?_⟩
  intro c slots hnodup hslots
  have hturns : (slots.map (source · c)).Nodup := by
    refine List.Nodup.map_on ?_ hnodup
    intro s hs s' hs' heq
    exact hinjective s c (hslots s hs) s' c (hslots s' hs') (by rw [heq]) (by rw [heq])
  have hsub : slots.map (source · c) ⊆ turns.filter (fun t => t.proposed? = some c) := by
    intro t ht
    obtain ⟨s, hs, rfl⟩ := List.mem_map.1 ht
    obtain ⟨⟨hmem, hproposed⟩, _⟩ := hsource s c (hslots s hs)
    exact List.mem_filter.2 ⟨hmem, by simpa using hproposed⟩
  rw [List.countP_eq_length_filter, ← List.length_map (f := (source · c))]
  exact (hturns.subperm hsub).length_le

theorem chosen_by_proposal_pair : ∃ turns w, pair.Run pair.start turns w ∧
    turns.filterMap Turn.proposed? = [.commit ⟨7⟩, .abort ⟨7⟩] ∧
    (w.machine ⟨2⟩).chosenAt? ⟨1⟩ = some ⟨⟨1⟩, ⟨2, ⟨2⟩⟩, .abort ⟨7⟩⟩ ∧
    (∃ source : Slot → Command → Turn, ∀ s c, pair.Chosen w s c →
      (source s c ∈ turns ∧ (source s c).proposed? = some c) ∧
      ∀ s' c', pair.Chosen w s' c' → (source s c).replica = (source s' c').replica →
        (source s c).reply.proposal? = (source s' c').reply.proposal? → s = s') ∧
    ∀ c (slots : List Slot), slots.Nodup → (∀ s ∈ slots, pair.Chosen w s c) →
      slots.length ≤ turns.countP (fun t => t.proposed? = some c) := by
  have hrun : pair.Run pair.start _ followed :=
    (pair.run_callAll _ ordering).append (pair.run_callAll _ following)
  have hproposed : ((pair.callAll pair.start ordering).1 ++
      (pair.callAll ordered following).1).filterMap Turn.proposed? =
        [.commit ⟨7⟩, .abort ⟨7⟩] := by
    decide +kernel
  exact ⟨_, _, hrun, hproposed, chosenAt?_followed.2, chosen_by_proposal hrun⟩

end Group

end ReplicatedLedger
