import Mathlib.Data.List.Forall2
import ReplicatedLedger.Proofs.Consensus.Coherence

/-!
What becomes of submissions.  A log accounts for all that it has taken up: it ends them in the order
in which they came, each with a true result, and what it has not ended is the active proposal and
the queue behind it.
-/

namespace ReplicatedLedger

/-- What an active proposal was submitted as. -/
def Proposal.submission (p : Proposal) : Submission := ⟨p.id, p.command, p.floor⟩

namespace Submission

/-- A completion that ends a submission: the command is chosen at a slot not below the floor, or no
majority could be had. -/
structure EndedBy (s : Submission) (l : ReplicatedLog) (x : Completion) : Prop where
  id : x.id = s.id
  command : x.command = s.command
  chosen : ∀ slot, x.result = .ok slot →
    s.floor ≤ slot ∧ ∃ e, l.chosen.get? slot = some e ∧ e.command = s.command
  failed : ∀ reason, x.result = .error reason → reason.isRetryable = true

theorem EndedBy.mono {s : Submission} {l l' : ReplicatedLog} {x : Completion} (h : s.EndedBy l x)
    (grows : ∀ slot e, l.chosen.get? slot = some e → l'.chosen.get? slot = some e) :
    s.EndedBy l' x where
  id := h.id
  command := h.command
  chosen slot hslot := by
    obtain ⟨hle, e, he, hcommand⟩ := h.chosen slot hslot
    exact ⟨hle, e, grows slot e he, hcommand⟩
  failed := h.failed

end Submission

namespace ReplicatedLog

/-- The submissions that are not ended, the active one first. -/
def undecided (l : ReplicatedLog) : List Submission :=
  (l.active.map (·.submission)).toList ++ l.waiting

/-- A log accounts for the submissions of a docket if it has ended the first of them and holds on to
the others. -/
def Accounts (l : ReplicatedLog) (docket : List Submission) : Prop :=
  ∃ ended, docket = ended ++ l.undecided ∧
    List.Forall₂ (fun s x => s.EndedBy l x) ended l.completions

/-- Whatever the first log accounts for, the second one does. -/
def Keeps (l l' : ReplicatedLog) : Prop :=
  l.Coherent → ∀ docket, l.Accounts docket → l'.Accounts docket

variable {l l' : ReplicatedLog} {p q : Proposal} {docket : List Submission}

theorem accounts_undecided (h : l.completions = []) : l.Accounts l.undecided := by
  refine ⟨[], rfl, ?_⟩
  rw [h]
  exact .nil

/-- Every completion that is kept ends some submission. -/
theorem Accounts.exists_endedBy {x : Completion} (h : l.Accounts docket) (hx : x ∈ l.completions) :
    ∃ s : Submission, s.EndedBy l x := by
  obtain ⟨ended, -, hall⟩ := h
  generalize l.completions = done at hall hx
  induction hall with
  | nil => cases hx
  | cons hfirst _ ih =>
      rcases List.mem_cons.1 hx with rfl | hx
      · exact ⟨_, hfirst⟩
      · exact ih hx

theorem undecided_of_active (current : l.active = some p) :
    l.undecided = p.submission :: l.waiting := by
  simp [undecided, current]

theorem undecided_of_idle (idle : l.active = none) : l.undecided = l.waiting := by
  simp [undecided, idle]

@[simp] theorem completions_learn (l : ReplicatedLog) (e : LogEntry) :
    (l.learn e).completions = l.completions := by
  unfold learn; split <;> rfl

@[simp] theorem undecided_learn (l : ReplicatedLog) (e : LogEntry) :
    (l.learn e).undecided = l.undecided := by
  unfold undecided
  rw [active_learn, waiting_learn]

/-- A log that ends nothing and drops nothing accounts for the same submissions. -/
theorem Accounts.of_frame (h : l.Accounts docket) (hundecided : l'.undecided = l.undecided)
    (hcompletions : l'.completions = l.completions)
    (grows : ∀ s e, l.chosen.get? s = some e → l'.chosen.get? s = some e) :
    l'.Accounts docket := by
  obtain ⟨ended, hdocket, hall⟩ := h
  refine ⟨ended, by rw [hdocket, hundecided], ?_⟩
  rw [hcompletions]
  exact hall.imp fun s x hx => hx.mono grows

/-! ### Moves -/

theorem Keeps.refl (l : ReplicatedLog) : l.Keeps l := fun _ _ h => h

theorem keeps_observe (l : ReplicatedLog) (b : Ballot) : l.Keeps (l.observe b) := fun _ _ ha =>
  ha.of_frame rfl rfl fun _ _ he => he

theorem keeps_withAcceptor (l : ReplicatedLog) (a : Acceptor) : l.Keeps (l.withAcceptor a) :=
  fun _ _ ha => ha.of_frame rfl rfl fun _ _ he => he

theorem keeps_withActive (current : l.active = some p) (h : q.submission = p.submission) :
    l.Keeps (l.withActive q) := by
  refine fun _ _ ha => ha.of_frame ?_ rfl fun _ _ he => he
  rw [undecided_of_active current, undecided_of_active (p := q) rfl, h]
  rfl

theorem keeps_reopen (current : l.active = some p) (s : Slot) (b : Ballot) (attempts : UInt32)
    (next : Word) : l.Keeps (l.reopen p s b attempts next) := by
  refine fun _ _ ha => ha.of_frame ?_ rfl fun _ _ he => he
  have reopened :
      (l.reopen p s b attempts next).active = some (p.reopened s b attempts l.nextAttempt) := rfl
  rw [undecided_of_active current, undecided_of_active reopened]
  rfl

theorem keeps_learn (l : ReplicatedLog) (e : LogEntry) : l.Keeps (l.learn e) := fun _ _ ha =>
  ha.of_frame (undecided_learn l e) (completions_learn l e) fun _ _ => get?_chosen_learn_of_some

theorem keeps_promote {s : Submission} {rest : List Submission} (idle : l.active = none)
    (first : l.waiting = s :: rest) :
    l.Keeps { l with active := some (.ofSubmission s), waiting := rest } := by
  refine fun _ _ ha => ha.of_frame ?_ rfl fun _ _ he => he
  rw [undecided_of_idle idle, first, undecided_of_active rfl]
  rfl

/-- The active submission is the next to be ended. -/
theorem keeps_finish {result : Except LedgerError Slot} (current : l.active = some p)
    (found : ∀ s, result = .ok s → l.chosenSince? p.command p.floor = some s)
    (failed : ∀ reason, result = .error reason → reason.isRetryable = true) :
    l.Keeps { l with
      active := none
      completions := l.completions ++ [⟨p.id, p.command, result⟩] } := by
  rintro hl docket ⟨ended, hdocket, hall⟩
  refine ⟨ended ++ [p.submission], ?_, ?_⟩
  · rw [hdocket, undecided_of_active current, undecided_of_idle rfl, List.append_assoc]
    rfl
  · have hended : p.submission.EndedBy l ⟨p.id, p.command, result⟩ :=
      ⟨rfl, rfl, fun slot hslot => mem_of_chosenSince? hl.indexed (found slot hslot), failed⟩
    exact (List.rel_append hall (.cons hended .nil)).imp fun _ _ hx => hx.mono fun _ _ he => he

end ReplicatedLog

end ReplicatedLedger
