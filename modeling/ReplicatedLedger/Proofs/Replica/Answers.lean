import ReplicatedLedger.Proofs.Books.Evidence
import ReplicatedLedger.Proofs.Replica.Requests

/-!
What an answer tells of the replica that gives it: at once from its books, or after the command was
chosen and applied.
-/

namespace ReplicatedLedger

namespace Books

variable {b : Books} {tid : Tid} {txn : Transaction} {c : Command} {reason : LedgerError}
  {request : Request} {response : Response} {entries : List AppliedEntry} {id : RequestId}

/-- What the books show when a request is answered.  A refusal promises nothing. -/
def Backs (b : Books) : Request → Response → Prop
  | .prepare tid txn, .vote .yes => ∃ r, b.participants.find? tid = some r ∧ r.txn = txn ∧
    (r.state = .prepared ∨ r.state = .committed)
  | .prepare .., .ack _ => False
  | .transfer tid txn, .ack _ => b.transfers.get? tid = some txn
  | .commit tid, .ack _ => b.participants.state? tid = some .committed
  | .abort tid, .ack _ =>
    b.participants.find? tid = none ∨ b.participants.state? tid = some .aborted
  | .logs, .logs entries => entries = b.applied
  | .balance a, .balance amount => b.balanceOf a = .ok amount
  | _, .vote .yes | _, .logs _ | _, .balance _ => False
  | _, _ => True

theorem backs_error (b : Books) (request : Request) (reason : LedgerError) :
    b.Backs request (.error reason) := by
  cases request <;> trivial

theorem backs_no (b : Books) (request : Request) (reason : LedgerError) :
    b.Backs request (.vote (.no reason)) := by
  cases request <;> trivial

/-- Only a request to prepare is answered by a vote for the transfer. -/
theorem Backs.prepare_of_yes (h : b.Backs request (.vote .yes)) : ∃ tid txn r,
    request = .prepare tid txn ∧ b.participants.find? tid = some r ∧ r.txn = txn := by
  cases request with
  | prepare tid txn =>
      obtain ⟨r, found, htxn, _⟩ := h
      exact ⟨tid, txn, r, rfl, found, htxn⟩
  | _ => exact False.elim h

/-- The trail is what a request for the logs is answered by. -/
theorem Backs.eq_applied (h : b.Backs request (.logs entries)) : entries = b.applied := by
  cases request with
  | logs => exact h
  | _ => exact False.elim h

/-- The books back whatever is answered to a request whose command was applied, provided that an
abort is applied where its transaction is recorded. -/
theorem Verdict.backs {s : Slot} {a : AppliedEntry} (h : b.Verdict s a response)
    (hshows : (∀ reason, a.outcome ≠ .rejected reason) → b.Shows a.entry.command) :
    b.Backs a.entry.command.request response := by
  cases h with
  | refused rejected kind => exact b.backs_error _ _
  | against kind => exact b.backs_no _ _
  | acknowledged accepted kind =>
      have hshown := hshows accepted
      cases hcommand : a.entry.command with
      | prepare tid txn => rw [hcommand] at kind; cases kind
      | transfer tid txn => rw [hcommand] at hshown; exact hshown
      | commit tid => rw [hcommand] at hshown; exact hshown
      | abort tid => rw [hcommand] at hshown; exact .inr hshown
  | @inFavour record accepted kind found live =>
      have hshown := hshows accepted
      cases hcommand : a.entry.command with
      | prepare tid txn =>
          rw [hcommand] at hshown found
          obtain ⟨record', found', htxn⟩ := hshown
          have found : b.participants.find? tid = some record := found
          rw [found] at found'
          cases found'
          exact ⟨record, found, htxn, live⟩
      | _ => rw [hcommand] at kind; cases kind

/-! ### Checks that settle a request -/

theorem checkFunds_ne_settled : b.checkFunds tid txn ≠ .ok (.ok .settled) := by
  unfold checkFunds
  cases b.participants.fundingShortfall? b.ledger tid txn with
  | error fault => exact fun h => by cases h
  | ok shortfall =>
      cases shortfall with
      | none => exact fun h => by cases h
      | some reason => exact fun h => by cases h

/-- Only a transfer that is carried out already need not be. -/
theorem checkTransfer_eq_settled (h : b.checkTransfer tid txn = .ok (.ok .settled)) :
    b.transfers.get? tid = some txn := by
  unfold checkTransfer at h
  split at h
  · cases h
  · split at h
    · next known hknown =>
      split at h
      · next htxn => rw [hknown, htxn]
      · cases h
    · split at h
      · cases h
      · exact absurd h checkFunds_ne_settled

/-- Only a transaction that is recorded as it is asked for need not be prepared. -/
theorem checkPrepare_eq_settled (h : b.checkPrepare tid txn = .ok (.ok .settled)) :
    ∃ r, b.participants.find? tid = some r ∧ r.txn = txn ∧ r.state ≠ .aborted := by
  unfold checkPrepare at h
  split at h
  · cases h
  · split at h
    · cases h
    · split at h
      · next r found =>
        split at h
        · next htxn =>
          split at h
          · cases h
          · next hstate => exact ⟨r, found, htxn, hstate⟩
        · cases h
      · split at h
        · exact absurd h checkFunds_ne_settled
        · cases h

theorem checkCommit_eq_settled (h : b.checkCommit tid = .ok .settled) :
    b.participants.state? tid = some .committed := by
  unfold checkCommit at h
  split at h <;> first | assumption | cases h

/-- There is nothing to abort where a transaction is aborted or not known. -/
theorem checkAbort_eq_settled (h : b.checkAbort tid = .ok .settled) :
    b.participants.find? tid = none ∨ b.participants.state? tid = some .aborted := by
  unfold checkAbort at h
  split at h
  · cases h
  · next hstate => exact .inr hstate
  · next hstate =>
    unfold Participants.state? at hstate
    exact .inl (Option.map_eq_none_iff.1 hstate)
  · cases h

/-- A check settles only what holds. -/
theorem backs_of_settled (h : b.admission c = .ok (.ok .settled))
    (hanswer : (PendingRequest.mk id c.tid c.reply).settled = .respond id response) :
    b.Backs c.request response := by
  cases c with
  | transfer tid txn =>
      cases hanswer
      exact checkTransfer_eq_settled h
  | prepare tid txn =>
      cases hanswer
      obtain ⟨r, found, htxn, hstate⟩ := checkPrepare_eq_settled h
      refine ⟨r, found, htxn, ?_⟩
      cases hr : r.state with
      | prepared => exact .inl rfl
      | committed => exact .inr rfl
      | aborted => exact absurd hr hstate
  | commit tid =>
      cases hanswer
      exact checkCommit_eq_settled (Except.ok.inj h)
  | abort tid =>
      cases hanswer
      exact checkAbort_eq_settled (Except.ok.inj h)

/-! ### Checks that refuse a request -/

theorem requireOwned_ne_unknown {a : AccountId} (h : b.requireOwned a = .error reason) :
    reason ≠ .unknownTransaction tid := by
  unfold requireOwned at h
  split at h
  · cases h
  · cases h
    exact LedgerError.noConfusion

theorem balanceOf_ne_unknown {a : AccountId} (h : b.balanceOf a = .error reason) :
    reason ≠ .unknownTransaction tid := by
  unfold balanceOf at h
  cases howned : b.requireOwned a with
  | ok owned =>
      rw [howned] at h
      cases h
  | error reason' =>
      rw [howned] at h
      cases h
      exact requireOwned_ne_unknown howned

theorem checkFunds_ne_unknown {tid' : Tid} (h : b.checkFunds tid' txn = .ok (.error reason)) :
    reason ≠ .unknownTransaction tid := by
  obtain ⟨shortfall, hshortfall, h⟩ := bind_eq_ok_iff.1 h
  cases shortfall with
  | none => cases h
  | some rejection =>
      cases h
      cases rejection with
      | unknownTransaction => exact absurd rfl (Participants.shortfall_ne_unknown hshortfall)
      | _ => exact LedgerError.noConfusion

theorem checkTransfer_ne_unknown {tid' : Tid}
    (h : b.checkTransfer tid' txn = .ok (.error reason)) : reason ≠ .unknownTransaction tid := by
  unfold checkTransfer at h
  split at h
  · next reason' howned =>
    cases h
    cases hsender : b.requireOwned txn.sender with
    | error reason' =>
        rw [hsender] at howned
        cases howned
        exact requireOwned_ne_unknown hsender
    | ok owned =>
        rw [hsender] at howned
        exact requireOwned_ne_unknown howned
  · split at h
    · split at h <;> cases h
      exact LedgerError.noConfusion
    · split at h
      · cases h
        exact LedgerError.noConfusion
      · exact checkFunds_ne_unknown h

theorem checkPrepare_ne_unknown {tid' : Tid}
    (h : b.checkPrepare tid' txn = .ok (.error reason)) : reason ≠ .unknownTransaction tid := by
  unfold checkPrepare at h
  split at h
  · cases h
    exact LedgerError.noConfusion
  · split at h
    · cases h
      exact LedgerError.noConfusion
    · split at h
      · split at h
        · split at h <;> cases h
          exact LedgerError.noConfusion
        · cases h
          exact LedgerError.noConfusion
      · split at h
        · exact checkFunds_ne_unknown h
        · cases h

theorem checkCommit_ne_unknown {tid' : Tid} (h : b.checkCommit tid' = .error reason) :
    reason ≠ .unknownTransaction tid := by
  unfold checkCommit at h
  split at h <;> cases h
  exact LedgerError.noConfusion

theorem checkAbort_ne_unknown {tid' : Tid} (h : b.checkAbort tid' = .error reason) :
    reason ≠ .unknownTransaction tid := by
  unfold checkAbort at h
  split at h <;> cases h
  exact LedgerError.noConfusion

/-- No check finds that a transaction is unknown: the replica may be behind. -/
theorem admission_ne_unknown (h : b.admission c = .ok (.error reason)) :
    reason ≠ .unknownTransaction tid := by
  cases c with
  | transfer tid' txn => exact checkTransfer_ne_unknown h
  | prepare tid' txn => exact checkPrepare_ne_unknown h
  | commit tid' => exact checkCommit_ne_unknown (Except.ok.inj h)
  | abort tid' => exact checkAbort_ne_unknown (Except.ok.inj h)

end Books

namespace Replica

variable {asked asked' : RequestId → Command → Slot → Prop} {balance : Amount} {r r' : Replica}
  {said : List Action} {request : PendingRequest} {c : Command} {id : RequestId}
  {response : Response} {e : Event} {tid : Tid} {slot : Option Slot}

/-! ### Answers given at once -/

/-- An answer that a replica gives from its books alone: they back it, it names no slot, and it
finds no transaction unknown, as the replica may be behind. -/
def AnswersFrom (b : Books) (e : Event) (id : RequestId) (response : Response) : Prop :=
  ∃ request, e = .request id request ∧ b.Backs request response ∧
    (∀ slot, response ≠ .ack (some slot)) ∧ ∀ tid, response ≠ .error (.unknownTransaction tid)

theorem consider_responds {admission : Except LedgerError Books.Admission} (hl : r.log.Coherent)
    (hs : r.log.Settled) (h : r.consider request c admission = .ok (r', said))
    (hm : .respond id response ∈ said) :
    (∃ reason, admission = .error reason ∧ request.fail reason = .respond id response) ∨
      admission = .ok .settled ∧ request.settled = .respond id response := by
  unfold consider at h
  split at h
  · next reason =>
    cases h
    exact .inl ⟨reason, rfl, (List.mem_singleton.1 hm).symm⟩
  · cases h
    exact .inr ⟨rfl, (List.mem_singleton.1 hm).symm⟩
  · obtain ⟨⟨log, proposal, actions⟩, hpropose, h⟩ := bind_eq_ok_iff.1 h
    cases h
    exact absurd hm (ReplicatedLog.propose_wordless hl hs hpropose id response)

/-- What is answered at once is the request that arrives, from the books. -/
theorem AnswersAt.answersFrom (hl : r.log.Coherent) (hs : r.log.Settled)
    (h : r.AnswersAt e id response) : AnswersFrom r.books e id response := by
  obtain ⟨id', request, r', said, rfl, hrequest, hm⟩ := h
  cases request using Request.byCommand with
  | command c =>
      rw [onRequest_command] at hrequest
      obtain ⟨admission, hadmission, hconsider⟩ := bind_eq_ok_iff.1 hrequest
      rcases consider_responds hl hs hconsider hm with ⟨reason, rfl, hanswer⟩ | ⟨rfl, hanswer⟩
      · obtain ⟨rfl, ⟨_, rfl⟩ | ⟨_, rfl⟩⟩ := PendingRequest.fail_eq_respond hanswer
        · refine ⟨_, rfl, r.books.backs_error _ _, by simp, fun tid htid => ?_⟩
          exact Books.admission_ne_unknown hadmission (Response.error.inj htid)
        · exact ⟨_, rfl, r.books.backs_no _ _, by simp, by simp⟩
      · obtain ⟨rfl, hresponse⟩ := PendingRequest.settled_eq_respond hanswer
        refine ⟨_, rfl, Books.backs_of_settled hadmission hanswer, ?_⟩
        obtain ⟨_, rfl⟩ | ⟨_, rfl⟩ := hresponse <;> simp
  | disconnect peers =>
      cases hrequest
      cases List.mem_singleton.1 hm
      exact ⟨_, rfl, trivial, by simp, by simp⟩
  | reconnect peers =>
      obtain ⟨requests, hrequests, hrequest⟩ := bind_eq_ok_iff.1 hrequest
      cases hrequest
      rcases List.mem_append.1 hm with hm | hm
      · exact absurd hm (ReplicatedLog.requestCatchUp_wordless hrequests id response)
      · cases List.mem_singleton.1 hm
        exact ⟨_, rfl, trivial, by simp, by simp⟩
  | logs =>
      cases hrequest
      cases List.mem_singleton.1 hm
      exact ⟨_, rfl, rfl, by simp, by simp⟩
  | balance account =>
      cases hrequest
      cases List.mem_singleton.1 hm
      cases hbalance : r.books.balanceOf account with
      | ok amount => exact ⟨_, rfl, hbalance, by simp [Response.ofBalance],
          by simp [Response.ofBalance]⟩
      | error reason =>
          refine ⟨_, rfl, trivial, by simp [Response.ofBalance], fun tid htid => ?_⟩
          exact Books.balanceOf_ne_unknown hbalance (Response.error.inj htid)

/-! ### Answers given later -/

theorem Refused.imp (h : Refused asked id response)
    (himp : ∀ id c floor, asked id c floor → asked' id c floor) : Refused asked' id response := by
  obtain ⟨c, floor, reason, hasked, hrefused⟩ := h
  exact ⟨c, floor, reason, himp _ _ _ hasked, hrefused⟩

theorem Applied.imp (h : r.Applied asked id response)
    (himp : ∀ id c floor, asked id c floor → asked' id c floor) : r.Applied asked' id response := by
  obtain ⟨floor, slot, a, hasked, happlied⟩ := h
  exact ⟨floor, slot, a, himp _ _ _ hasked, happlied⟩

theorem Refused.exists_asked (h : Refused asked id response) : ∃ c floor, asked id c floor := by
  obtain ⟨c, floor, _, hasked, _⟩ := h
  exact ⟨c, floor, hasked⟩

theorem Refused.ne_ack (h : Refused asked id response) : response ≠ .ack slot := by
  rintro rfl
  obtain ⟨_, _, _, _, _, hanswer | hanswer⟩ := h <;> cases hanswer

theorem Refused.ne_yes (h : Refused asked id response) : response ≠ .vote .yes := by
  rintro rfl
  obtain ⟨_, _, _, _, _, hanswer | hanswer⟩ := h <;> cases hanswer

theorem Refused.ne_logs {entries : List AppliedEntry} (h : Refused asked id response) :
    response ≠ .logs entries := by
  rintro rfl
  obtain ⟨_, _, _, _, _, hanswer | hanswer⟩ := h <;> cases hanswer

theorem Refused.ne_unknown (h : Refused asked id response) :
    response ≠ .error (.unknownTransaction tid) := by
  rintro rfl
  obtain ⟨_, _, _, _, hretryable, hanswer | hanswer⟩ := h
  · cases hanswer
    cases hretryable
  · cases hanswer

theorem Refused.backs (h : Refused asked id response) (b : Books) (request : Request) :
    b.Backs request response := by
  obtain ⟨_, _, reason, _, _, rfl | rfl⟩ := h
  · exact b.backs_error request reason
  · exact b.backs_no request reason

/-- Only a commit that was applied where there was no record is refused as unknown. -/
theorem Applied.of_unknown (h : r.Applied asked id (.error (.unknownTransaction tid)))
    (hb : r.books.Attested) : ∃ (floor s : Slot) (a : AppliedEntry),
      asked id (.commit tid) floor ∧ floor ≤ s ∧ r.books.applied[s.index.toNat]? = some a ∧
        a.entry.command = .commit tid ∧ a.outcome = .rejected .unknownTransaction := by
  obtain ⟨floor, s, a, hasked, hle, ha, hverdict⟩ := h
  generalize hresponse : Response.error (.unknownTransaction tid) = response at hverdict
  cases hverdict with
  | @refused reason hrejected kind =>
      cases reason with
      | unknownTransaction =>
          obtain ⟨tid', hcommand, _⟩ := hb.unknown _ a ha hrejected
          rw [hcommand] at hresponse hasked
          cases hresponse
          exact ⟨floor, s, a, hasked, hle, ha, hcommand, hrejected⟩
      | _ => cases hresponse
  | _ => cases hresponse

end Replica

end ReplicatedLedger
