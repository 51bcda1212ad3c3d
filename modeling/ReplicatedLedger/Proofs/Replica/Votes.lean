import ReplicatedLedger.Proofs.Replica.History

/-!
Votes that are given once the prepare is chosen and applied.  What a replica votes depends on the
outcome of the prepare, which all replicas share, and on whether an abort has been applied by then.
Entries are applied in batches, so at one replica an abort that was chosen later can come in time
for the vote, while another replica has voted before it.
-/

namespace ReplicatedLedger

namespace Books

variable {b : Books} {slot : Slot} {a : AppliedEntry} {tid : Tid} {txn : Transaction}
  {request : PendingRequest} {outcome : Outcome} {trail trail' : List AppliedEntry}

/-- Whether a trail aborts a transaction that was prepared. -/
def Aborts (trail : List AppliedEntry) (tid : Tid) : Prop :=
  ∃ a ∈ trail, a.decided? = some (tid, .aborted)

instance : Decidable (Aborts trail tid) := inferInstanceAs (Decidable (∃ a ∈ trail, _))

/-- The vote on a transfer whose prepare had an outcome, by the trail of the replica that votes. -/
def voteOn (outcome : Outcome) (tid : Tid) (trail : List AppliedEntry) : Vote :=
  match outcome with
  | .rejected reason => .no (reason.toError tid)
  | _ => if Aborts trail tid then .no (.alreadyDecided tid) else .yes

theorem voteOn_of_accepted (accepted : ∀ reason, outcome ≠ .rejected reason) :
    voteOn outcome tid trail = if Aborts trail tid then .no (.alreadyDecided tid) else .yes := by
  cases outcome with
  | rejected reason => exact absurd rfl (accepted reason)
  | _ => rfl

/-- Votes on the same outcome differ only by an abort. -/
theorem voteOn_congr (h : Aborts trail tid ↔ Aborts trail' tid) :
    voteOn outcome tid trail = voteOn outcome tid trail' := by
  cases outcome with
  | rejected reason => rfl
  | _ => exact if_congr h rfl rfl

theorem answerApplied_prepare (hb : b.Attested) (ha : b.applied[slot.index.toNat]? = some a)
    (hcommand : a.entry.command = .prepare tid txn) (htid : request.tid = tid)
    (hreply : request.reply = .vote) :
    Replica.answerApplied b slot request =
      .respond request.id (.vote (voteOn a.outcome tid b.applied)) := by
  have houtcome : b.outcome? slot = some a.outcome := by
    unfold outcome?
    rw [ha, Option.map_some]
  have hfail : ∀ reason, request.fail reason = .respond request.id (.vote (.no reason)) := by
    intro reason
    unfold PendingRequest.fail
    rw [hreply]
    rfl
  unfold Replica.answerApplied
  rw [houtcome, htid]
  split
  · next hnone => cases hnone
  · next reason hreason =>
    rw [Option.some.inj hreason]
    exact hfail _
  · next outcome hrejected hsome =>
    have accepted : ∀ reason, a.outcome ≠ .rejected reason := by
      rw [Option.some.inj hsome]
      exact hrejected
    -- an accepted prepare leaves a record, whose state the trail tells
    obtain ⟨record, found, _⟩ : b.Shows (.prepare tid txn) := by
      rw [← hcommand]
      exact (hb.shows _ a ha accepted).resolve_right (by simp [hcommand])
    have hdecided : b.participants.state? tid = some .aborted ↔ Aborts b.applied tid :=
      hb.traced.decided tid .aborted (by simp)
    rw [voteOn_of_accepted accepted, hreply]
    have hstate := Participants.state?_of_find? found
    rw [hstate, Option.some.injEq] at hdecided
    rw [hstate]
    cases hlive : record.state with
    | aborted =>
        rw [if_pos (hdecided.1 hlive)]
        exact hfail _
    | _ =>
        rw [if_neg fun haborts => by rw [hdecided.2 haborts] at hlive; cases hlive]
        rfl

end Books

namespace Replica

/-- Whether a request is answered in a step because its command is chosen for a slot, and the slot
is applied. -/
def AnswersThrough (r : Replica) (e : Event) (slot : Slot) (request : PendingRequest) : Prop :=
  ∃ r₁ said r₂ failures waiting, r.onEvent e = .ok (r₁, said) ∧ r₁.gather = .ok (r₂, failures) ∧
    (slot, waiting) ∈ r₂.ready ∧ request ∈ waiting

instance {r : Replica} {e : Event} {slot : Slot} {request : PendingRequest} :
    Decidable (r.AnswersThrough e slot request) :=
  decidable_of_iff ((r.onEvent e >>= (·.1.gather)).toOption.any fun p =>
      p.1.ready.any fun q => q.1 = slot ∧ request ∈ q.2) <| by
    simp only [AnswersThrough, Option.any_eq_true, List.any_eq_true, toOption_eq_some_iff,
      bind_eq_ok_iff, decide_eq_true_eq, Prod.exists]
    constructor
    · rintro ⟨r₂, failures, ⟨r₁, said, hevent, hgather⟩, slot', waiting, hready, rfl, hrequest⟩
      exact ⟨r₁, said, r₂, failures, waiting, hevent, hgather, hready, hrequest⟩
    · rintro ⟨r₁, said, r₂, failures, waiting, hevent, hgather, hready, hrequest⟩
      exact ⟨r₂, failures, ⟨r₁, said, hevent, hgather⟩, slot, waiting, hready, rfl, hrequest⟩

variable {asked : RequestId → Command → Slot → Prop} {balance : Amount} {r r' : Replica} {e : Event}
  {actions : List Action} {slot : Slot} {request : PendingRequest}

/-- What is answered through the log answers a submission whose command stands at the slot. -/
theorem AtRest.answersThrough (h : r.AtRest asked) (hl : r.log.Coherent) (hs : r.log.Settled)
    (hr : Replays balance r')
    (due : ∀ id c, e = .request id c.request → r.books.admission c = .ok (.ok .propose) →
      asked id c r.log.nextApply)
    (hhandle : r.handle e = .ok (r', actions)) (hthrough : r.AnswersThrough e slot request) :
    answerApplied r'.books slot request ∈ actions ∧
      ∃ (s : Submission) (a : AppliedEntry), request.Seeks asked s ∧
        r'.books.applied[slot.index.toNat]? = some a ∧ a.entry.command = s.command := by
  obtain ⟨r₁, said, r₂, failures, waiting, hevent, hgather, hready, hrequest⟩ := hthrough
  obtain ⟨⟨r₁', said'⟩, hevent', hhandle⟩ := bind_eq_ok_iff.1 hhandle
  obtain ⟨⟨r'', answers'⟩, hsettle, hhandle⟩ := bind_eq_ok_iff.1 hhandle
  cases hhandle
  rw [hevent] at hevent'
  cases hevent'
  obtain ⟨r₂', failures', hgather', rfl, rfl⟩ := settle_eq_ok_iff.1 hsettle
  rw [hgather] at hgather'
  cases hgather'
  obtain ⟨docket, haccounts, htracks⟩ := h.onEvent hl hs due hevent
  obtain ⟨⟨htracks, _⟩, _⟩ := htracks.gather haccounts hgather
  have hr₂ : Replays balance r₂ := ⟨hr.books, hr.count, hr.known⟩
  obtain ⟨s, a, seeks, _, ha, hcommand⟩ := htracks.applied hr₂ hready hrequest
  refine ⟨?_, s, a, seeks, ha, hcommand⟩
  have hanswer : answerApplied r₂.books slot request ∈ r₂.answers :=
    List.mem_flatMap.2 ⟨(slot, waiting), hready, List.mem_map_of_mem hrequest⟩
  exact List.mem_append_right _ (List.mem_append_right _ hanswer)

end Replica

namespace Group

/-- Whether, on the way to a moment of the shard, an answer is given to a request because its
command is chosen for a slot, and the slot is applied. -/
def AnswersThrough (g : Group) (balance : Amount) (events : List Occurrence) (w : World Replica)
    (o : Occurrence) (slot : Slot) (request : PendingRequest) (response : Response) : Prop :=
  ∃ earlier later w₀, events = earlier ++ o :: later ∧ g.History (g.replicas balance) earlier w₀ ∧
    g.Meets w₀ o ∧ g.History (w₀.update o.replica o.after o.actions) later w ∧
    Replica.AnswersThrough (Machine.setTime (w₀.machine o.replica) o.time) o.event slot request ∧
    Replica.answerApplied o.after.books slot request = .respond request.id response

variable {g : Group} {balance : Amount} {events : List Occurrence} {w : World Replica}
  {o o' : Occurrence} {slot : Slot} {request request' : PendingRequest}
  {response response' : Response} {q : ReplicaId} {e : LogEntry} {tid : Tid} {txn : Transaction}

namespace AnswersThrough

theorem inOrder (h : g.AnswersThrough balance events w o slot request response) :
    g.InOrder balance w := by
  obtain ⟨earlier, later, w₀, _, hearlier, hmet, hlater, _⟩ := h
  exact hlater.inOrder ((hearlier.event hmet).inOrder (g.inOrder_replicas balance))

/-- What the replica has applied by then it has applied ever after. -/
theorem begins (h : g.AnswersThrough balance events w o slot request response) :
    o.after.books.applied <+: (w.machine o.replica).books.applied := by
  obtain ⟨earlier, later, w₀, _, hearlier, hmet, hlater, _⟩ := h
  exact (hlater.applied_met (hearlier.inOrder (g.inOrder_replicas balance)) hmet).2

theorem attested (h : g.AnswersThrough balance events w o slot request response) :
    o.after.books.Attested := by
  obtain ⟨earlier, later, w₀, _, hearlier, hmet, _⟩ := h
  have hattested := (hearlier.event hmet).attested o.replica
  rwa [World.machine_update_self] at hattested

/-- The answer is given, to a request for the command that stands at the slot. -/
theorem applied (h : g.AnswersThrough balance events w o slot request response) :
    .respond request.id response ∈ o.actions ∧ ∃ a : AppliedEntry,
      o.after.books.applied[slot.index.toNat]? = some a ∧
      AskedAt events o.replica request.id a.entry.command ∧
      request.tid = a.entry.command.tid ∧ request.reply = a.entry.command.reply := by
  obtain ⟨earlier, later, w₀, rfl, hearlier, hmet, _, hthrough, hanswer⟩ := h
  obtain ⟨steps, hcareer, hsteps⟩ := hearlier.career o.replica
  let s : Replica.Step := ⟨w₀.machine o.replica, o.time, o.event, o.after, o.actions⟩
  have hbefore : (w₀.machine o.replica).InOrder balance (Replica.Proposed (steps ++ [s])) :=
    hcareer.inOrder.imp fun _ _ _ hp => hp.mono (List.subset_append_left _ _)
  have hbefore := hbefore.setTime o.time
  have hafter := ((hearlier.event hmet).inOrder (g.inOrder_replicas balance)).replays o.replica
  rw [World.machine_update_self] at hafter
  obtain ⟨hmem, submission, a, seeks, ha, hcommand⟩ :=
    hbefore.atRest.answersThrough hbefore.coherent hbefore.settled hafter
      (fun id c hevent hadmission =>
        ⟨s, List.mem_append_right _ List.mem_cons_self, hevent, hadmission, rfl⟩)
      hmet.handled hthrough
  rw [hanswer] at hmem
  obtain ⟨arrival, harrival, hevent, _⟩ := seeks.asked
  refine ⟨hmem, a, ha, ?_, by rw [hcommand, seeks.tid], by rw [hcommand, seeks.reply]⟩
  rw [hcommand]
  rcases List.mem_append.1 harrival with hold | hlast
  · obtain ⟨before, o', between, w₁, rfl, _, hreplica, rfl⟩ := hsteps arrival hold
    exact ⟨o', by simp, hreplica, _, hevent, Command.command?_request _⟩
  · rw [List.mem_singleton.1 hlast] at hevent
    exact ⟨o, by simp, rfl, _, hevent, Command.command?_request _⟩

/-- An answer through the log at a slot that holds a prepare is a vote on its outcome. -/
theorem vote (h : g.AnswersThrough balance events w o slot request response)
    (hheld : (w.machine q).log.chosenAt? slot = some e) (hprepare : e.command = .prepare tid txn) :
    AskedAt events o.replica request.id (.prepare tid txn) ∧ ∃ a : AppliedEntry,
      o.after.books.applied[slot.index.toNat]? = some a ∧
      response = .vote (Books.voteOn a.outcome tid o.after.books.applied) := by
  obtain ⟨_, a, ha, hasked, htid, hreply⟩ := h.applied
  obtain ⟨hslot, hknown⟩ := (h.inOrder.replays _).known _ a (Books.getElem?_of_begins ha h.begins)
  rw [Slot.toNat_inj.1 hslot] at hknown
  have hcommand : a.entry.command = .prepare tid txn :=
    (h.inOrder.steady.agree hknown hheld).trans hprepare
  rw [hcommand] at hasked htid hreply
  refine ⟨hasked, a, ha, ?_⟩
  obtain ⟨earlier, later, w₀, _, _, _, _, _, hanswer⟩ := id h
  rw [Books.answerApplied_prepare h.attested ha hcommand htid hreply] at hanswer
  exact ((Action.respond.injEq ..).mp hanswer).2.symm

end AnswersThrough

/-- An abort that is in one of two trails alone comes after all that the other one holds. -/
theorem InOrder.exists_abort {r : ReplicaId} {trail trail' : List AppliedEntry}
    (h : g.InOrder balance w) (hbegins : trail <+: (w.machine r).books.applied)
    (hbegins' : trail' <+: (w.machine q).books.applied) (haborts : Books.Aborts trail tid)
    (hnone : ¬ Books.Aborts trail' tid) : ∃ (i : Nat) (x : AppliedEntry), trail[i]? = some x ∧
      x.entry.command = .abort tid ∧ x.outcome = .aborted ∧ trail'.length ≤ i := by
  obtain ⟨x, hx, hdecided⟩ := haborts
  obtain ⟨i, hi⟩ := List.mem_iff_getElem?.1 hx
  obtain ⟨hcommand, houtcome⟩ := AppliedEntry.decided?_eq_aborted_iff.1 hdecided
  refine ⟨i, x, hi, hcommand, houtcome, Nat.le_of_not_lt fun hlt => hnone ?_⟩
  have hy := List.getElem?_eq_getElem hlt
  obtain ⟨_, hcommand', houtcome'⟩ := h.deed_eq (Books.getElem?_of_begins hi hbegins)
    (Books.getElem?_of_begins hy hbegins')
  exact ⟨_, List.getElem_mem hlt, AppliedEntry.decided?_eq_aborted_iff.2
    ⟨hcommand'.symm.trans hcommand, houtcome'.symm.trans houtcome⟩⟩

/-- Answers through the log at a slot that holds a prepare, at any two moments, are votes on the
same outcome.  They are equal, unless one of the replicas had applied an abort of the transaction
when it answered, at a later slot that the other one had not applied yet. -/
theorem votes_agree_but_for_abort (h : g.AnswersThrough balance events w o slot request response)
    (h' : g.AnswersThrough balance events w o' slot request' response')
    (hheld : (w.machine q).log.chosenAt? slot = some e) (hprepare : e.command = .prepare tid txn) :
    (AskedAt events o.replica request.id (.prepare tid txn) ∧
      AskedAt events o'.replica request'.id (.prepare tid txn) ∧
      .respond request.id response ∈ o.actions ∧ .respond request'.id response' ∈ o'.actions) ∧
    (∃ a : AppliedEntry, o.after.books.applied[slot.index.toNat]? = some a ∧
      response = .vote (Books.voteOn a.outcome tid o.after.books.applied) ∧
      response' = .vote (Books.voteOn a.outcome tid o'.after.books.applied)) ∧
    (response = response' ∨ ∃ (i : Nat) (x : AppliedEntry), slot.index.toNat < i ∧
      x.entry.command = .abort tid ∧ x.outcome = .aborted ∧
      (o.after.books.applied[i]? = some x ∧ o'.after.books.applied.length ≤ i ∨
        o'.after.books.applied[i]? = some x ∧ o.after.books.applied.length ≤ i)) := by
  obtain ⟨hasked, a, ha, hvote⟩ := h.vote hheld hprepare
  obtain ⟨hasked', a', ha', hvote'⟩ := h'.vote hheld hprepare
  have hw := h.inOrder
  obtain ⟨_, _, houtcome⟩ := hw.deed_eq (Books.getElem?_of_begins ha h.begins)
    (Books.getElem?_of_begins ha' h'.begins)
  rw [← houtcome] at hvote'
  have hlt := (List.getElem?_eq_some_iff.1 ha).1
  have hlt' := (List.getElem?_eq_some_iff.1 ha').1
  refine ⟨⟨hasked, hasked', h.applied.1, h'.applied.1⟩, ⟨a, ha, hvote, hvote'⟩, ?_⟩
  by_cases haborts : Books.Aborts o.after.books.applied tid
  · by_cases haborts' : Books.Aborts o'.after.books.applied tid
    · rw [hvote, hvote', Books.voteOn_congr (iff_of_true haborts haborts')]
      exact .inl rfl
    · obtain ⟨i, x, hx, hcommand, haborted, hle⟩ :=
        hw.exists_abort h.begins h'.begins haborts haborts'
      exact .inr ⟨i, x, by omega, hcommand, haborted, .inl ⟨hx, hle⟩⟩
  · by_cases haborts' : Books.Aborts o'.after.books.applied tid
    · obtain ⟨i, x, hx, hcommand, haborted, hle⟩ :=
        hw.exists_abort h'.begins h.begins haborts' haborts
      exact .inr ⟨i, x, by omega, hcommand, haborted, .inr ⟨hx, hle⟩⟩
    · rw [hvote, hvote', Books.voteOn_congr (iff_of_false haborts haborts')]
      exact .inl rfl

/-- An answer through the log is given in the course of a history. -/
theorem History.answersThrough {before after : List Occurrence} {w₀ : World Replica} {cue : Cue}
    (earlier : g.History (g.replicas balance) before w₀) (ho : o ∈ (g.meetAll w₀ [cue]).1)
    (through : Replica.AnswersThrough (Machine.setTime (w₀.machine o.replica) o.time) o.event slot
      request)
    (answer : Replica.answerApplied o.after.books slot request = .respond request.id response)
    (later : g.History (g.meetAll w₀ [cue]).2 after w) :
    g.AnswersThrough balance (before ++ (g.meetAll w₀ [cue]).1 ++ after) w o slot request
      response := by
  obtain ⟨met, hone⟩ := meetAll_singleton ho
  rw [hone] at later ⊢
  exact ⟨before, after, w₀, by simp, earlier, met, later, through, answer⟩

/-! ### A batch -/

/-- The first replica is asked to prepare a transfer, and the second one accepts it. -/
def preparing : List Cue :=
  ⟨⟨1⟩, .zero, .request ⟨0⟩ (.prepare ⟨1⟩ ⟨⟨1⟩, ⟨2⟩, 3⟩)⟩ ::
    ((balloting ⟨1⟩ ⟨2⟩ ⟨1, ⟨1⟩⟩ .first none (.prepare ⟨1⟩ ⟨⟨1⟩, ⟨2⟩, 3⟩)).take 3).map .delivered

/-- The first replica learns that the prepare is chosen. -/
def prepareChosen : Cue := .delivered ⟨⟨2⟩, ⟨1⟩, .accepted ⟨1, ⟨1⟩⟩ .first⟩

/-- The transfer is aborted.  The second replica, when it is asked to prepare the transfer as well,
learns of the abort before it learns what stands at the slot below. -/
def aborting : List Cue :=
  ⟨⟨1⟩, .zero, .request ⟨1⟩ (.abort ⟨1⟩)⟩ ::
    (balloting ⟨1⟩ ⟨2⟩ ⟨2, ⟨1⟩⟩ ⟨1⟩ none (.abort ⟨1⟩)).map .delivered ++
    [⟨⟨2⟩, .zero, .request ⟨2⟩ (.prepare ⟨1⟩ ⟨⟨1⟩, ⟨2⟩, 3⟩)⟩,
      .delivered ⟨⟨1⟩, ⟨2⟩, .chosen ⟨⟨1⟩, ⟨2, ⟨1⟩⟩, .abort ⟨1⟩⟩⟩,
      .delivered ⟨⟨2⟩, ⟨1⟩, .prepare ⟨3, ⟨2⟩⟩ .first⟩]

/-- The second replica learns of the prepare. -/
def prepareTold : Cue :=
  .delivered ⟨⟨1⟩, ⟨2⟩, .chosen ⟨.first, ⟨1, ⟨1⟩⟩, .prepare ⟨1⟩ ⟨⟨1⟩, ⟨2⟩, 3⟩⟩⟩

/-- The replicas before the first one votes, after that, before the second one votes, and at the
end. -/
def accepted : World Replica := (pair.meetAll (pair.replicas 10) preparing).2

def votedYes : World Replica := (pair.meetAll accepted [prepareChosen]).2

def aborted : World Replica := (pair.meetAll votedYes aborting).2

def votedNo : World Replica := (pair.meetAll aborted [prepareTold]).2

theorem exists_yes : ∃ o ∈ (pair.meetAll accepted [prepareChosen]).1,
    Replica.AnswersThrough (Machine.setTime (accepted.machine o.replica) o.time) o.event .first
      ⟨⟨0⟩, ⟨1⟩, .vote⟩ ∧
    Replica.answerApplied o.after.books .first ⟨⟨0⟩, ⟨1⟩, .vote⟩ = .respond ⟨0⟩ (.vote .yes) := by
  decide +kernel

theorem exists_no : ∃ o ∈ (pair.meetAll aborted [prepareTold]).1,
    Replica.AnswersThrough (Machine.setTime (aborted.machine o.replica) o.time) o.event .first
      ⟨⟨2⟩, ⟨1⟩, .vote⟩ ∧
    Replica.answerApplied o.after.books .first ⟨⟨2⟩, ⟨1⟩, .vote⟩ =
      .respond ⟨2⟩ (.vote (.no (.alreadyDecided ⟨1⟩))) := by
  decide +kernel

/-- Two replicas that vote differently at the same slot. -/
theorem exists_differing_votes : ∃ events w o o',
    pair.AnswersThrough 10 events w o .first ⟨⟨0⟩, ⟨1⟩, .vote⟩ (.vote .yes) ∧
    pair.AnswersThrough 10 events w o' .first ⟨⟨2⟩, ⟨1⟩, .vote⟩
      (.vote (.no (.alreadyDecided ⟨1⟩))) ∧
    (w.machine ⟨1⟩).log.chosenAt? .first =
      some ⟨.first, ⟨1, ⟨1⟩⟩, .prepare ⟨1⟩ ⟨⟨1⟩, ⟨2⟩, 3⟩⟩ := by
  have haccepted : pair.History (pair.replicas 10) _ accepted := pair.history_meetAll _ preparing
  have hyes : pair.History accepted _ votedYes := pair.history_meetAll _ [prepareChosen]
  have haborted : pair.History votedYes _ aborted := pair.history_meetAll _ aborting
  have hno : pair.History aborted _ votedNo := pair.history_meetAll _ [prepareTold]
  obtain ⟨o, ho, hthrough, hanswer⟩ := exists_yes
  obtain ⟨o', ho', hthrough', hanswer'⟩ := exists_no
  have hfirst := haccepted.answersThrough ho hthrough hanswer (haborted.append hno)
  have hsecond := ((haccepted.append hyes).append haborted).answersThrough ho' hthrough' hanswer'
    .rest
  rw [List.append_nil, List.append_assoc] at hsecond
  exact ⟨_, votedNo, o, o', hfirst, hsecond, by decide +kernel⟩

/-- A vote does not follow from the outcome at its slot alone. -/
theorem votes_differ : ¬ ∀ (g : Group) (balance : Amount) (events : List Occurrence)
    (w : World Replica) (o o' : Occurrence) (slot : Slot) (request request' : PendingRequest)
    (response response' : Response) (q : ReplicaId) (e : LogEntry) (tid : Tid) (txn : Transaction),
    g.AnswersThrough balance events w o slot request response →
      g.AnswersThrough balance events w o' slot request' response' →
      AskedAt events o.replica request.id (.prepare tid txn) →
      AskedAt events o'.replica request'.id (.prepare tid txn) →
      (w.machine q).log.chosenAt? slot = some e → e.command = .prepare tid txn →
      response = response' := by
  intro hequal
  obtain ⟨events, w, o, o', h, h', hheld⟩ := exists_differing_votes
  cases hequal pair 10 events w o o' .first _ _ _ _ ⟨1⟩ _ ⟨1⟩ _ h h' (h.vote hheld rfl).1
    (h'.vote hheld rfl).1 hheld rfl

theorem votes_agree_but_for_abort_pair : ∃ events w o o',
    pair.AnswersThrough 10 events w o .first ⟨⟨0⟩, ⟨1⟩, .vote⟩ (.vote .yes) ∧
    pair.AnswersThrough 10 events w o' .first ⟨⟨2⟩, ⟨1⟩, .vote⟩
      (.vote (.no (.alreadyDecided ⟨1⟩))) ∧
    ∃ (i : Nat) (x : AppliedEntry), 0 < i ∧ x.entry.command = .abort ⟨1⟩ ∧ x.outcome = .aborted ∧
      (o.after.books.applied[i]? = some x ∧ o'.after.books.applied.length ≤ i ∨
        o'.after.books.applied[i]? = some x ∧ o.after.books.applied.length ≤ i) := by
  obtain ⟨events, w, o, o', h, h', hheld⟩ := exists_differing_votes
  obtain ⟨_, _, hsame | ⟨i, x, hlt, habort⟩⟩ := votes_agree_but_for_abort h h' hheld rfl
  · cases hsame
  · exact ⟨events, w, o, o', h, h', i, x, hlt, habort⟩

end Group

end ReplicatedLedger
