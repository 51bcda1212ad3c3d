import ReplicatedLedger.Proofs.Consensus.Submission
import ReplicatedLedger.Proofs.Replica.Agreement

/-!
What becomes of requests.  A replica keeps each with the submission that was made for it, while that
is undecided and while it waits to be applied, and whatever it answers later answers one of these.
-/

namespace ReplicatedLedger

namespace PendingRequest

variable {request : PendingRequest} {reason : LedgerError} {id : RequestId} {response : Response}

/-- A request that a submission was made for, if `asked` tells which commands were submitted for
which ids, and from which slot on. -/
structure Seeks (asked : RequestId → Command → Slot → Prop) (request : PendingRequest)
    (s : Submission) : Prop where
  asked : asked request.id s.command s.floor
  tid : request.tid = s.command.tid
  reply : request.reply = s.command.reply

theorem fail_eq_respond (h : request.fail reason = .respond id response) :
    request.id = id ∧ (request.reply = .ack ∧ response = .error reason ∨
      request.reply = .vote ∧ response = .vote (.no reason)) := by
  unfold fail at h
  split at h
  · next hreply =>
    cases h
    exact ⟨rfl, .inl ⟨hreply, rfl⟩⟩
  · next hreply =>
    cases h
    exact ⟨rfl, .inr ⟨hreply, rfl⟩⟩

theorem settled_eq_respond (h : request.settled = .respond id response) :
    request.id = id ∧ (request.reply = .ack ∧ response = .ack none ∨
      request.reply = .vote ∧ response = .vote .yes) := by
  unfold settled at h
  split at h
  · next hreply =>
    cases h
    exact ⟨rfl, .inl ⟨hreply, rfl⟩⟩
  · next hreply =>
    cases h
    exact ⟨rfl, .inr ⟨hreply, rfl⟩⟩

end PendingRequest

/-- How a request is answered whose command is applied as the entry at a slot: an entry that was
rejected speaks against it, and the shard votes for a transfer while its record is not aborted. -/
inductive Books.Verdict (b : Books) (slot : Slot) (a : AppliedEntry) : Response → Prop
  | refused {reason : Rejection} (rejected : a.outcome = .rejected reason)
      (kind : a.entry.command.reply = .ack) :
      Verdict b slot a (.error (reason.toError a.entry.command.tid))
  | against {reason : LedgerError} (kind : a.entry.command.reply = .vote) :
      Verdict b slot a (.vote (.no reason))
  | acknowledged (accepted : ∀ reason, a.outcome ≠ .rejected reason)
      (kind : a.entry.command.reply = .ack) : Verdict b slot a (.ack (some slot))
  | inFavour {record : ParticipantRecord} (accepted : ∀ reason, a.outcome ≠ .rejected reason)
      (kind : a.entry.command.reply = .vote)
      (found : b.participants.find? a.entry.command.tid = some record)
      (live : record.state = .prepared ∨ record.state = .committed) :
      Verdict b slot a (.vote .yes)

namespace Replica

variable {asked asked' : RequestId → Command → Slot → Prop} {balance : Amount} {r r' : Replica}
  {log : ReplicatedLog} {actions : List Action} {docket ended : List Submission} {s : Submission}
  {request : PendingRequest} {c : Command} {id : RequestId} {response : Response}
  {done : List Completion} {x : Completion} {slot : Slot} {waiting : List PendingRequest}
  {e : Event}

/-- The requests that wait at a replica are those of the submissions of a docket, and those whose
commands are chosen, not below the slot from which on they were submitted. -/
structure Tracks (asked : RequestId → Command → Slot → Prop) (docket : List Submission)
    (r : Replica) : Prop where
  ascending : docket.Pairwise fun s s' => s.id.number < s'.id.number
  numbered : ∀ s ∈ docket, s.id.number < r.log.nextProposal
  pending : ∀ s ∈ docket, ∃ request, r.pending.get? s.id = some request ∧ request.Seeks asked s
  submitted : ∀ id request, r.pending.get? id = some request → ∃ s ∈ docket, s.id = id
  awaiting : ∀ slot waiting, r.awaiting.get? slot = some waiting →
    ∃ e, r.log.chosen.get? slot = some e ∧ ∀ request ∈ waiting, ∃ s : Submission,
      request.Seeks asked s ∧ s.floor ≤ slot ∧ s.command = e.command

/-- The answer to a request whose proposal came to nothing. -/
def Refused (asked : RequestId → Command → Slot → Prop) (id : RequestId) (response : Response) :
    Prop :=
  ∃ c floor reason, asked id c floor ∧ reason.isRetryable = true ∧
    (response = .error reason ∨ response = .vote (.no reason))

/-- The answer to a request whose command is chosen and applied, not below the slot from which on it
was submitted. -/
def Applied (asked : RequestId → Command → Slot → Prop) (r : Replica) (id : RequestId)
    (response : Response) : Prop :=
  ∃ (floor slot : Slot) (a : AppliedEntry), asked id a.entry.command floor ∧ floor ≤ slot ∧
    r.books.applied[slot.index.toNat]? = some a ∧ r.books.Verdict slot a response

namespace Tracks

theorem imp (h : r.Tracks asked docket) (himp : ∀ id c floor, asked id c floor → asked' id c floor) :
    r.Tracks asked' docket := by
  have hseeks : ∀ {request : PendingRequest} {s : Submission}, request.Seeks asked s →
      request.Seeks asked' s := fun seeks => ⟨himp _ _ _ seeks.asked, seeks.tid, seeks.reply⟩
  refine ⟨h.ascending, h.numbered, fun s hs => ?_, h.submitted, fun slot waiting hslot => ?_⟩
  · obtain ⟨request, hrequest, seeks⟩ := h.pending s hs
    exact ⟨request, hrequest, hseeks seeks⟩
  · obtain ⟨e, he, hall⟩ := h.awaiting slot waiting hslot
    refine ⟨e, he, fun request hrequest => ?_⟩
    obtain ⟨s, seeks, hle, hcommand⟩ := hall request hrequest
    exact ⟨s, hseeks seeks, hle, hcommand⟩

/-- All else may go on by itself. -/
theorem of_frame (h : r.Tracks asked docket) (hpending : r'.pending = r.pending)
    (hawaiting : r'.awaiting = r.awaiting) (hle : r.log.nextProposal ≤ r'.log.nextProposal)
    (grows : ∀ s e, r.log.chosen.get? s = some e → r'.log.chosen.get? s = some e) :
    r'.Tracks asked docket where
  ascending := h.ascending
  numbered s hs := UInt64.lt_of_lt_of_le (h.numbered s hs) hle
  pending := by
    rw [hpending]
    exact h.pending
  submitted := by
    rw [hpending]
    exact h.submitted
  awaiting slot waiting hslot := by
    rw [hawaiting] at hslot
    obtain ⟨e, he, hall⟩ := h.awaiting slot waiting hslot
    exact ⟨e, grows slot e he, hall⟩

/-- A request is kept under the id of its submission, which no other submission has. -/
theorem submit (h : r.Tracks asked docket) (seeks : request.Seeks asked s)
    (hid : r.log.nextProposal ≤ s.id.number) (hnext : s.id.number < log.nextProposal)
    (grows : ∀ s e, r.log.chosen.get? s = some e → log.chosen.get? s = some e) :
    Tracks asked (docket ++ [s])
      { r with log := log, pending := r.pending.insert s.id request } := by
  have hfresh : ∀ s' ∈ docket, s'.id.number < s.id.number := fun s' hs' =>
    UInt64.lt_of_lt_of_le (h.numbered s' hs') hid
  constructor
  case ascending =>
    refine List.pairwise_append.2 ⟨h.ascending, List.pairwise_singleton _ _, ?_⟩
    intro s' hs' s'' hs''
    rw [List.mem_singleton.1 hs'']
    exact hfresh s' hs'
  case numbered =>
    intro s' hs'
    rcases List.mem_append.1 hs' with hs' | hs'
    · exact UInt64.lt_trans (hfresh s' hs') hnext
    · rw [List.mem_singleton.1 hs']
      exact hnext
  case pending =>
    intro s' hs'
    rw [SortedMap.get?_insert]
    rcases List.mem_append.1 hs' with hs' | hs'
    · have hne : s'.id ≠ s.id := fun heq =>
        absurd (congrArg ProposalId.number heq) (UInt64.ne_of_lt (hfresh s' hs'))
      rw [if_neg hne]
      exact h.pending s' hs'
    · rw [List.mem_singleton.1 hs', if_pos rfl]
      exact ⟨request, rfl, seeks⟩
  case submitted =>
    intro id request' hid'
    rw [SortedMap.get?_insert] at hid'
    split at hid'
    · next heq => exact ⟨s, List.mem_append_right _ List.mem_cons_self, heq.symm⟩
    · obtain ⟨s', hs', heq⟩ := h.submitted id request' hid'
      exact ⟨s', List.mem_append_left _ hs', heq⟩
  case awaiting =>
    intro slot waiting hslot
    obtain ⟨e, he, hall⟩ := h.awaiting slot waiting hslot
    exact ⟨e, grows slot e he, hall⟩

/-! ### Completions -/

/-- The first submission of the docket is ended. -/
theorem erase (h : r.Tracks asked (s :: docket)) :
    Tracks asked docket { r with pending := r.pending.erase s.id } := by
  obtain ⟨hfirst, hrest⟩ := List.pairwise_cons.1 h.ascending
  refine ⟨hrest, fun s' hs' => h.numbered s' (List.mem_cons_of_mem _ hs'), fun s' hs' => ?_,
    fun id request hid => ?_, h.awaiting⟩
  · have hne : s'.id ≠ s.id := fun heq =>
      absurd (congrArg ProposalId.number heq).symm (UInt64.ne_of_lt (hfirst s' hs'))
    rw [SortedMap.get?_erase, if_neg hne]
    exact h.pending s' (List.mem_cons_of_mem _ hs')
  · rw [SortedMap.get?_erase] at hid
    split at hid
    · cases hid
    · next hne =>
      obtain ⟨s', hs', rfl⟩ := h.submitted id request hid
      rcases List.mem_cons.1 hs' with rfl | hs'
      · exact absurd rfl hne
      · exact ⟨s', hs', rfl⟩

/-- A request goes on to wait for the slot at which its command is chosen. -/
theorem await {e : LogEntry} (h : r.Tracks asked docket) (seeks : request.Seeks asked s)
    (hle : s.floor ≤ slot) (he : r.log.chosen.get? slot = some e) (hcommand : e.command = s.command) :
    Tracks asked docket { r with
      awaiting := r.awaiting.insert slot ((r.awaiting.get? slot).getD [] ++ [request]) } := by
  refine ⟨h.ascending, h.numbered, h.pending, h.submitted, fun slot' waiting hslot => ?_⟩
  rw [SortedMap.get?_insert] at hslot
  split at hslot
  · next heq =>
    cases hslot
    subst heq
    refine ⟨e, he, fun request' hrequest' => ?_⟩
    rcases List.mem_append.1 hrequest' with hold | hnew
    · cases hwaiting : r.awaiting.get? slot' with
      | none =>
          rw [hwaiting] at hold
          cases hold
      | some waiting =>
          rw [hwaiting] at hold
          obtain ⟨e', he', hall⟩ := h.awaiting slot' waiting hwaiting
          rw [he] at he'
          cases he'
          exact hall request' hold
    · rw [List.mem_singleton.1 hnew]
      exact ⟨s, seeks, hle, hcommand.symm⟩
  · exact h.awaiting slot' waiting hslot

/-- A completion takes the first request of the docket on, to its slot or to an answer. -/
theorem onCompletion (h : r.Tracks asked (s :: docket)) (hended : s.EndedBy r.log x) :
    (r.onCompletion x).1.Tracks asked docket ∧
      ∀ id response, .respond id response ∈ (r.onCompletion x).2 → Refused asked id response := by
  obtain ⟨request, hrequest, seeks⟩ := h.pending s List.mem_cons_self
  unfold Replica.onCompletion
  rw [hended.id, hrequest]
  dsimp only
  cases hresult : x.result with
  | ok slot =>
      obtain ⟨hle, e, he, hcommand⟩ := hended.chosen slot hresult
      exact ⟨h.erase.await seeks hle he hcommand, fun _ _ hm => by cases hm⟩
  | error reason =>
      refine ⟨h.erase, fun id response hm => ?_⟩
      obtain ⟨rfl, hresponse⟩ := PendingRequest.fail_eq_respond (List.mem_singleton.1 hm).symm
      exact ⟨s.command, s.floor, reason, seeks.asked, hended.failed reason hresult,
        hresponse.imp And.right And.right⟩

theorem onCompletions (h : r.Tracks asked (ended ++ docket))
    (hall : List.Forall₂ (fun s x => s.EndedBy r.log x) ended done) :
    (r.onCompletions done).1.Tracks asked docket ∧
      ∀ id response, .respond id response ∈ (r.onCompletions done).2 →
        Refused asked id response := by
  induction done generalizing r ended with
  | nil =>
      cases hall
      exact ⟨h, fun _ _ hm => by cases hm⟩
  | cons x done ih =>
      obtain ⟨s, ended, hended, hrest, rfl⟩ := List.forall₂_cons_right_iff.1 hall
      obtain ⟨hfirst, hrefused⟩ := h.onCompletion hended
      have hlog : (r.onCompletion x).1.log = r.log := (r.log_onCompletion x).1
      obtain ⟨hafter, hmore⟩ := ih hfirst (by rw [hlog]; exact hrest)
      refine ⟨hafter, fun id response hm => ?_⟩
      rcases List.mem_append.1 hm with hm | hm
      · exact hrefused id response hm
      · exact hmore id response hm

/-- Once all completions are taken, the requests that are left pending are the undecided ones. -/
theorem gather (h : r.Tracks asked docket) (ha : r.log.Accounts docket)
    (hgather : r.gather = .ok (r', actions)) :
    (r'.Tracks asked r'.log.undecided ∧ r'.log.completions = [] ∧ r'.log.Drained) ∧
      ∀ id response, .respond id response ∈ actions → Refused asked id response := by
  obtain ⟨log, books, ready, hdrain, _, hcompletions, hlog, _⟩ := gather_eq_ok hgather
  obtain ⟨ended, rfl, hall⟩ := ha.drainApplicable hdrain
  obtain ⟨stop, hstop, hstopped⟩ := ReplicatedLog.drainApplicable_eq_ok hdrain
  have happlied : Tracks asked (ended ++ log.undecided)
      ⟨log.takeCompletions.1, books, r.pending, r.awaiting, r.now⟩ :=
    h.of_frame rfl rfl (by rw [hstopped]; exact Nat.le_refl _)
      (by rw [hstopped]; exact fun _ _ he => he)
  have hcompleted := happlied.onCompletions (hall.imp fun _ _ hx => hx.mono fun _ _ he => he)
  rw [hcompletions] at hcompleted
  have hdrained : log.Drained := by
    rw [hstopped]
    exact ReplicatedLog.drained_of_drainFrom hstop
  refine ⟨?_, hcompleted.2⟩
  rw [hlog]
  exact ⟨hcompleted.1, rfl, hdrained⟩

end Tracks

/-! ### Between events -/

/-- Between events nothing is left to hand out or to answer, and what is pending is undecided. -/
structure AtRest (asked : RequestId → Command → Slot → Prop) (r : Replica) : Prop where
  tracks : r.Tracks asked r.log.undecided
  completed : r.log.completions = []
  behind : ∀ slot waiting, r.awaiting.get? slot = some waiting → r.books.nextSlot ≤ slot
  drained : r.log.Drained

theorem atRest_start (t : Topology) (policy : ReplicaPolicy) : (start t policy).AtRest asked where
  tracks :=
    { ascending := .nil
      numbered := fun _ h => by cases h
      pending := fun _ h => by cases h
      submitted := fun _ _ h => by cases h
      awaiting := fun _ _ h => by cases h }
  completed := rfl
  behind _ _ h := by cases h
  drained := rfl

theorem mem_ready_iff :
    (slot, waiting) ∈ r.ready ↔ r.awaiting.get? slot = some waiting ∧ slot < r.books.nextSlot := by
  unfold ready SortedMap.below
  rw [List.mem_filter, Slot.isLT_compare_iff, SortedMap.get?_eq_some_iff]

theorem awaiting_dismissReady (r : Replica) :
    r.dismissReady.awaiting.toList = r.awaiting.atOrAbove r.books.nextSlot :=
  SortedMap.toList_erase_below _ _

theorem get?_awaiting_dismissReady_iff : r.dismissReady.awaiting.get? slot = some waiting ↔
    r.awaiting.get? slot = some waiting ∧ r.books.nextSlot ≤ slot := by
  rw [SortedMap.get?_eq_some_iff, awaiting_dismissReady, SortedMap.get?_eq_some_iff]
  unfold SortedMap.atOrAbove
  rw [List.mem_filter, Slot.isGE_compare_iff]

/-- The log has applied as far as the books go. -/
theorem Replays.nextSlot (h : Replays balance r) : r.books.nextSlot = r.log.nextApply := by
  rw [← Slot.toNat_inj, h.count]
  refine UInt64.toNat_ofNat_of_lt' ?_
  rw [← h.count]
  exact r.log.nextApply.index.toNat_lt_size

/-- What waits for a slot that is applied waits for the entry at that position of the trail. -/
theorem Tracks.applied (h : r.Tracks asked docket) (hr : Replays balance r)
    (hready : (slot, waiting) ∈ r.ready) (hrequest : request ∈ waiting) :
    ∃ (s : Submission) (a : AppliedEntry), request.Seeks asked s ∧ s.floor ≤ slot ∧
      r.books.applied[slot.index.toNat]? = some a ∧ a.entry.command = s.command := by
  obtain ⟨hwaiting, hlt⟩ := mem_ready_iff.1 hready
  rw [hr.nextSlot, Slot.lt_iff_toNat, hr.count] at hlt
  obtain ⟨e, he, hall⟩ := h.awaiting slot waiting hwaiting
  obtain ⟨s, seeks, hle, hcommand⟩ := hall request hrequest
  have ha := List.getElem?_eq_getElem hlt
  obtain ⟨hslot, hknown⟩ := hr.known _ _ ha
  rw [Slot.toNat_inj.1 hslot, he] at hknown
  cases hknown
  exact ⟨s, _, seeks, hle, ha, hcommand.symm⟩

theorem answerApplied_eq_respond {b : Books} {a : AppliedEntry}
    (applied : b.applied[slot.index.toNat]? = some a) (htid : request.tid = a.entry.command.tid)
    (hreply : request.reply = a.entry.command.reply)
    (h : answerApplied b slot request = .respond id response) :
    request.id = id ∧ b.Verdict slot a response := by
  have houtcome : b.outcome? slot = some a.outcome := by
    unfold Books.outcome?
    rw [applied, Option.map_some]
  have against : ∀ {reason}, request.reply = .vote → request.fail reason = .respond id response →
      request.id = id ∧ b.Verdict slot a response := by
    intro reason hvote hfail
    obtain ⟨hid, ⟨hack, _⟩ | ⟨_, rfl⟩⟩ := PendingRequest.fail_eq_respond hfail
    · rw [hvote] at hack
      cases hack
    · exact ⟨hid, .against (hreply.symm.trans hvote)⟩
  unfold answerApplied at h
  rw [houtcome] at h
  split at h
  · next hnone => cases hnone
  · next reason hreason =>
    obtain ⟨hid, ⟨hack, rfl⟩ | ⟨hvote, rfl⟩⟩ := PendingRequest.fail_eq_respond h
    · rw [htid]
      exact ⟨hid, .refused (Option.some.inj hreason) (hreply.symm.trans hack)⟩
    · exact ⟨hid, .against (hreply.symm.trans hvote)⟩
  · next outcome hrejected hsome =>
    have accepted : ∀ reason, a.outcome ≠ .rejected reason := by
      rw [Option.some.inj hsome]
      exact hrejected
    split at h
    · next hack =>
      cases h
      exact ⟨rfl, .acknowledged accepted (hreply.symm.trans hack)⟩
    · next hvote =>
      rw [htid] at h
      split at h
      · next hstate =>
        obtain ⟨record, found, hlive⟩ := Option.map_eq_some_iff.1 hstate
        cases h
        exact ⟨rfl, .inFavour accepted (hreply.symm.trans hvote) found (.inl hlive)⟩
      · next hstate =>
        obtain ⟨record, found, hlive⟩ := Option.map_eq_some_iff.1 hstate
        cases h
        exact ⟨rfl, .inFavour accepted (hreply.symm.trans hvote) found (.inr hlive)⟩
      · exact against hvote h
      · exact against hvote h

/-- What is answered after an event was refused, or is applied. -/
theorem Tracks.settle (h : r.Tracks asked docket) (ha : r.log.Accounts docket)
    (hr : Replays balance r') (hsettle : r.settle = .ok (r', actions)) :
    r'.AtRest asked ∧ ∀ id response, .respond id response ∈ actions →
      Refused asked id response ∨ r'.Applied asked id response := by
  obtain ⟨r₁, failures, hgather, rfl, rfl⟩ := settle_eq_ok_iff.1 hsettle
  obtain ⟨⟨htracks, hcompleted, hdrained⟩, hrefused⟩ := h.gather ha hgather
  refine ⟨⟨⟨htracks.ascending, htracks.numbered, htracks.pending, htracks.submitted,
    fun slot waiting hslot => ?_⟩, hcompleted, fun slot waiting hslot => ?_, hdrained⟩,
    fun id response hm => ?_⟩
  · exact htracks.awaiting slot waiting (get?_awaiting_dismissReady_iff.1 hslot).1
  · exact (get?_awaiting_dismissReady_iff.1 hslot).2
  · refine (List.mem_append.1 hm).imp (hrefused id response) fun hm => ?_
    obtain ⟨⟨slot, waiting⟩, hready, hm⟩ := List.mem_flatMap.1 hm
    obtain ⟨request, hrequest, hanswer⟩ := List.mem_map.1 hm
    have hr₁ : Replays balance r₁ := ⟨hr.books, hr.count, hr.known⟩
    obtain ⟨s, a, seeks, hle, ha, hcommand⟩ := htracks.applied hr₁ hready hrequest
    obtain ⟨rfl, hverdict⟩ := answerApplied_eq_respond ha (by rw [hcommand, seeks.tid])
      (by rw [hcommand, seeks.reply]) hanswer
    exact ⟨s.floor, slot, a, by rw [hcommand]; exact seeks.asked, hle, ha, hverdict⟩

/-! ### Whole steps -/

/-- The request that an action answers. -/
def addressee? : Action → Option RequestId
  | .respond id _ => some id
  | .send .. | .setTimer .. | .cancelTimer _ => none

/-- The requests that are answered, once for each answer. -/
def answered (actions : List Action) : List RequestId := actions.filterMap addressee?

theorem answered_append (actions more : List Action) :
    answered (actions ++ more) = answered actions ++ answered more := List.filterMap_append

theorem answered_eq_nil (h : ∀ id response, Action.respond id response ∉ actions) :
    answered actions = [] := by
  refine List.filterMap_eq_nil_iff.2 fun action hm => ?_
  cases action with
  | respond id response => exact absurd hm (h id response)
  | send receiver m => rfl
  | setTimer t after => rfl
  | cancelTimer t => rfl

@[simp] theorem addressee?_fail (request : PendingRequest) (reason : LedgerError) :
    addressee? (request.fail reason) = some request.id := by
  unfold PendingRequest.fail
  split <;> rfl

@[simp] theorem addressee?_settled (request : PendingRequest) :
    addressee? request.settled = some request.id := by
  unfold PendingRequest.settled
  split <;> rfl

/-- An answer that is given as soon as the request is received. -/
def AnswersAt (r : Replica) (e : Event) (id : RequestId) (response : Response) : Prop :=
  ∃ id' request r' said, e = .request id' request ∧ r.onRequest id' request = .ok (r', said) ∧
    Action.respond id response ∈ said

theorem AtRest.imp (h : r.AtRest asked) (himp : ∀ id c floor, asked id c floor → asked' id c floor) :
    r.AtRest asked' :=
  ⟨h.tracks.imp himp, h.completed, h.behind, h.drained⟩

theorem AtRest.propose {proposal : ProposalId} (h : r.AtRest asked) (hl : r.log.Coherent)
    (hs : r.log.Settled) (due : asked id c r.log.nextApply)
    (hpropose : r.log.propose c = .ok (log, proposal, actions)) :
    ∃ docket, log.Accounts docket ∧ Tracks asked docket
      { r with log := log, pending := r.pending.insert proposal ⟨id, c.tid, c.reply⟩ } := by
  obtain ⟨hid, hnext⟩ := ReplicatedLog.id_of_propose hl hs hpropose
  obtain ⟨hmoves, _⟩ : ReplicatedLog.Moves (fun _ _ => False) (· = c) r.log actions [] log ∧
    log.Settled := ReplicatedLog.propose_moves hl hs rfl hpropose
  have haccounts := ReplicatedLog.accounts_undecided h.completed
  refine ⟨_, ReplicatedLog.propose_accounts hl hs haccounts hpropose, ?_⟩
  exact h.tracks.submit ⟨due, rfl, rfl⟩ (UInt64.le_of_eq hid.symm) hnext hmoves.grows.chosen

/-- A request that is not proposed is answered, and leaves the log as it is but for partitions. -/
theorem onRequest_cases {request : Request} (h : r.onRequest id request = .ok (r', actions)) :
    (∃ c log proposal, request = c.request ∧ r.books.admission c = .ok (.ok .propose) ∧
      r.log.propose c = .ok (log, proposal, actions) ∧
      r' = { r with log := log, pending := r.pending.insert proposal ⟨id, c.tid, c.reply⟩ }) ∨
    (∃ partition, r' = r.withPartition partition) ∧ answered actions = [id] := by
  cases request using Request.byCommand with
  | command c =>
      rw [onRequest_command] at h
      obtain ⟨admission, hadmission, h⟩ := bind_eq_ok_iff.1 h
      unfold consider at h
      split at h
      · cases h
        exact .inr ⟨⟨r.partition, rfl⟩, by simp [answered]⟩
      · cases h
        exact .inr ⟨⟨r.partition, rfl⟩, by simp [answered]⟩
      · obtain ⟨⟨log, proposal, said⟩, hpropose, h⟩ := bind_eq_ok_iff.1 h
        cases h
        exact .inl ⟨c, log, proposal, rfl, hadmission, hpropose, rfl⟩
  | disconnect peers =>
      cases h
      exact .inr ⟨⟨_, rfl⟩, rfl⟩
  | reconnect peers =>
      obtain ⟨requests, hrequests, h⟩ := bind_eq_ok_iff.1 h
      cases h
      refine .inr ⟨⟨_, rfl⟩, ?_⟩
      rw [answered_append, answered_eq_nil (ReplicatedLog.requestCatchUp_wordless hrequests)]
      rfl
  | logs =>
      cases h
      exact .inr ⟨⟨r.partition, rfl⟩, rfl⟩
  | balance account =>
      cases h
      exact .inr ⟨⟨r.partition, rfl⟩, rfl⟩

theorem AtRest.withPartition (h : r.AtRest asked) (partition : Partition) :
    (r.withPartition partition).AtRest asked where
  tracks := h.tracks.of_frame rfl rfl (Nat.le_refl _) fun _ _ he => he
  completed := h.completed
  behind := h.behind
  drained := h.drained

theorem AtRest.onLog (h : r.AtRest asked) (hl : r.log.Coherent) (hs : r.log.Settled)
    (hhandle : r.log.handle e = .ok (log, actions)) :
    ∃ docket, log.Accounts docket ∧ Tracks asked docket { r with log := log } := by
  obtain ⟨hmoves, _⟩ : ReplicatedLog.Moves (fun _ _ => True) (fun _ => False) r.log actions [] log ∧
    log.Settled := ReplicatedLog.handle_moves hl hs (fun _ _ _ => trivial) hhandle
  have haccounts := ReplicatedLog.accounts_undecided h.completed
  exact ⟨_, ReplicatedLog.handle_keeps hl hs hhandle hl _ haccounts,
    h.tracks.of_frame rfl rfl hmoves.nextProposal_le hmoves.grows.chosen⟩

/-- An event leaves every request with a submission that the log accounts for. -/
theorem AtRest.onEvent (h : r.AtRest asked) (hl : r.log.Coherent) (hs : r.log.Settled)
    (due : ∀ id c, e = .request id c.request → r.books.admission c = .ok (.ok .propose) →
      asked id c r.log.nextApply)
    (hevent : r.onEvent e = .ok (r', actions)) :
    ∃ docket, r'.log.Accounts docket ∧ r'.Tracks asked docket := by
  cases e with
  | request id request =>
      rcases onRequest_cases hevent with
        ⟨c, log, proposal, rfl, hadmission, hpropose, rfl⟩ | ⟨⟨partition, rfl⟩, _⟩
      · exact h.propose hl hs (due id c rfl hadmission) hpropose
      · have hafter := h.withPartition partition
        exact ⟨_, ReplicatedLog.accounts_undecided hafter.completed, hafter.tracks⟩
  | timer t =>
      obtain ⟨⟨log, said⟩, hhandle, hr'⟩ := map_eq_ok_iff.1 hevent
      cases hr'
      exact h.onLog hl hs hhandle
  | message sender m =>
      obtain ⟨⟨log, said⟩, hhandle, hr'⟩ := map_eq_ok_iff.1 hevent
      cases hr'
      exact h.onLog hl hs hhandle

/-- Only a request is answered at once, and one that is not proposed. -/
theorem onEvent_responds (hl : r.log.Coherent) (hs : r.log.Settled)
    (hevent : r.onEvent e = .ok (r', actions)) (hm : .respond id response ∈ actions) :
    r.AnswersAt e id response ∧ ∃ partition, r' = r.withPartition partition := by
  cases e with
  | request id' request =>
      refine ⟨⟨id', request, r', actions, rfl, hevent, hm⟩, ?_⟩
      rcases onRequest_cases hevent with ⟨c, log, proposal, _, _, hpropose, _⟩ | ⟨hpartition, _⟩
      · exact absurd hm (ReplicatedLog.propose_wordless hl hs hpropose id response)
      · exact hpartition
  | timer t =>
      obtain ⟨⟨log, said⟩, hhandle, hr'⟩ := map_eq_ok_iff.1 hevent
      cases hr'
      exact absurd hm (ReplicatedLog.handle_wordless hl hs hhandle id response)
  | message sender m =>
      obtain ⟨⟨log, said⟩, hhandle, hr'⟩ := map_eq_ok_iff.1 hevent
      cases hr'
      exact absurd hm (ReplicatedLog.handle_wordless hl hs hhandle id response)

/-- Where nothing is left to hand out, settling applies nothing. -/
theorem books_settle (hd : r.log.Drained) (h : r.settle = .ok (r', actions)) :
    r'.books = r.books := by
  obtain ⟨r₁, failures, hgather, rfl, rfl⟩ := settle_eq_ok_iff.1 h
  obtain ⟨log, books, ready, hdrain, hbooks, _, _, hbooks'⟩ := gather_eq_ok hgather
  obtain ⟨stop, hstop, _⟩ := ReplicatedLog.drainApplicable_eq_ok hdrain
  rw [hd.ready_eq_nil hstop] at hbooks
  cases hbooks
  exact hbooks'

/-- After an event the replica is at rest again, and every answer was given at once, from books that
did not change, or is a refusal, or answers a request whose command is applied. -/
theorem AtRest.handle (h : r.AtRest asked) (hl : r.log.Coherent) (hs : r.log.Settled)
    (hr : Replays balance r)
    (due : ∀ id c, e = .request id c.request → r.books.admission c = .ok (.ok .propose) →
      asked id c r.log.nextApply)
    (hhandle : r.handle e = .ok (r', actions)) :
    r'.AtRest asked ∧ ∀ id response, .respond id response ∈ actions →
      (r.AnswersAt e id response ∧ r'.books = r.books) ∨ Refused asked id response ∨
        r'.Applied asked id response := by
  obtain ⟨ready, hadvances⟩ : ∃ ready, Advances (fun _ _ => True) (fun _ => True) r actions ready r' :=
    handle_advances hl hs (fun _ _ _ => trivial) (fun _ _ _ => trivial) hhandle
  obtain ⟨⟨r₁, said⟩, hevent, hhandle⟩ := bind_eq_ok_iff.1 hhandle
  obtain ⟨⟨r₂, answers⟩, hsettle, hhandle⟩ := bind_eq_ok_iff.1 hhandle
  cases hhandle
  obtain ⟨docket, haccounts, htracks⟩ := h.onEvent hl hs due hevent
  obtain ⟨hafter, hsettled⟩ :=
    htracks.settle haccounts (hr.advances hl hadvances) hsettle
  refine ⟨hafter, fun id response hm => ?_⟩
  rcases List.mem_append.1 hm with hm | hm
  · obtain ⟨hanswers, partition, rfl⟩ := onEvent_responds hl hs hevent hm
    have hdrained : (r.withPartition partition).log.Drained := h.drained
    exact .inl ⟨hanswers, books_settle (r := r.withPartition partition) hdrained hsettle⟩
  · exact .inr (hsettled id response hm)

end Replica

end ReplicatedLedger
