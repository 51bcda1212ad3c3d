import ReplicatedLedger.Proofs.Consensus.Handling
import ReplicatedLedger.Proofs.Consensus.Voting

/-!
Submissions over whole steps.  Ids are given out in ascending order, and no step loses a submission.
-/

namespace ReplicatedLedger

namespace ReplicatedLog

variable {heard : ReplicaId → Message → Prop} {wanted : Command → Prop} {l l' : ReplicatedLog}
  {actions : List Action} {ready : List LogEntry} {id : ProposalId} {c : Command}
  {docket : List Submission}

/-! ### Ids -/

@[simp] theorem nextProposal_learn (l : ReplicatedLog) (e : LogEntry) :
    (l.learn e).nextProposal = l.nextProposal := by
  unfold learn; split <;> rfl

theorem Move.nextProposal_le (h : Move heard wanted l ready l') :
    l.nextProposal ≤ l'.nextProposal := by
  cases h with
  | hear | win => exact UInt64.le_of_eq (nextProposal_learn l _).symm
  | submit due counted => exact UInt64.le_of_lt (Word.lt_of_sum_one counted)
  | _ => exact UInt64.le_refl _

theorem Moves.nextProposal_le (h : Moves heard wanted l actions ready l') :
    l.nextProposal ≤ l'.nextProposal := by
  induction h with
  | refl => exact UInt64.le_refl _
  | move first _ ih => exact UInt64.le_trans first.nextProposal_le ih
  | say _ _ ih => exact ih

/-- The id that a submission is given is the next one. -/
theorem id_of_propose (hl : l.Coherent) (hs : l.Settled)
    (h : l.propose c = .ok (l', id, actions)) :
    id.number = l.nextProposal ∧ id.number < l'.nextProposal := by
  obtain ⟨_, _, rfl, _⟩ := propose_eq_ok h
  obtain ⟨next, counted, hfollows⟩ : ∃ next, _ ∧
      Progress.Follows (fun _ _ => False) (· = c) (l.submitted c next) _ := propose_follows hl hs h
  have hle : next ≤ l'.nextProposal := hfollows.moves.nextProposal_le
  exact ⟨rfl, UInt64.lt_of_lt_of_le (Word.lt_of_sum_one counted) hle⟩

/-! ### Dockets -/

theorem handle_keeps {e : Event} (hl : l.Coherent) (hs : l.Settled)
    (h : l.handle e = .ok (l', actions)) : l.Keeps l' := by
  have hfollows : Progress.Follows (fun _ _ => True) (fun _ => False) l _ :=
    handle_follows hl hs (fun _ _ _ => trivial) h
  exact hfollows.keeps

/-- A submission is put at the end of the docket. -/
theorem propose_accounts (hl : l.Coherent) (hs : l.Settled) (ha : l.Accounts docket)
    (h : l.propose c = .ok (l', id, actions)) :
    l'.Accounts (docket ++ [⟨id, c, l.nextApply⟩]) := by
  obtain ⟨_, _, rfl, _⟩ := propose_eq_ok h
  obtain ⟨next, counted, hfollows⟩ : ∃ next, _ ∧
      Progress.Follows (fun _ _ => False) (· = c) (l.submitted c next) _ := propose_follows hl hs h
  have hsubmit : Move (fun _ _ => False) (· = c) l [] (l.submitted c next) := .submit rfl counted
  refine hfollows.keeps (hl.move hsubmit) _ ?_
  obtain ⟨ended, rfl, hall⟩ := ha
  have hnew : (l.submitted c next).undecided =
      l.undecided ++ [⟨⟨l.nextProposal⟩, c, l.nextApply⟩] := by
    unfold undecided submitted
    rw [List.append_assoc]
  refine ⟨ended, by rw [hnew, List.append_assoc], ?_⟩
  exact hall.imp fun _ _ hx => hx.mono fun _ _ he => he

theorem Accounts.drainApplicable (h : l.Accounts docket)
    (hdrain : l.drainApplicable = .ok (l', ready)) : l'.Accounts docket := by
  obtain ⟨stop, _, rfl⟩ := drainApplicable_eq_ok hdrain
  exact h.of_frame rfl rfl fun _ _ he => he

end ReplicatedLog

end ReplicatedLedger
