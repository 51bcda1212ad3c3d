import ReplicatedLedger.Ballot
import ReplicatedLedger.LedgerError
import ReplicatedLedger.Transaction

/-!
The command that a replica is trying to have chosen, and how far the current attempt has come.
-/

namespace ReplicatedLedger

open Std

structure ProposalId where
  number : Word
  deriving DecidableEq, Repr, Inhabited

instance : Ord ProposalId := ⟨compareOn ProposalId.number⟩
instance : TransOrd ProposalId := inferInstanceAs (TransCmp (compareOn ProposalId.number))
instance : LawfulEqOrd ProposalId := lawfulEqCmp_compareOn fun | ⟨_⟩, ⟨_⟩, rfl => rfl

def ProposalId.text (p : ProposalId) : String := "proposal-" ++ toString p.number

/-- A command that waits for its turn.  `floor` is the first slot that was not yet applied when it
was submitted: a copy chosen from there on counts as this one. -/
structure Submission where
  id : ProposalId
  command : Command
  floor : Slot
  deriving DecidableEq, Inhabited

/-- The end of a proposal: the slot of its command, or the reason why it was given up. -/
structure Completion where
  id : ProposalId
  command : Command
  result : Except LedgerError Slot
  deriving DecidableEq

inductive Phase where
  /-- Collects promises, each with the value that its sender accepted last. -/
  | preparing (promises : SortedMap ReplicaId (Option (Ballot × Command)))
  /-- Collects the replicas that accepted `value`. -/
  | accepting (value : Command) (accepted : SortedSet ReplicaId)
  /-- Waits before the next attempt. -/
  | backoff
  deriving DecidableEq, Inhabited

/-- Attempts are numbered over all proposals of a replica; `attempts` counts those charged to this
one. -/
structure Proposal where
  id : ProposalId
  command : Command
  floor : Slot
  slot : Slot
  ballot : Ballot
  phase : Phase
  attempts : UInt32
  attempt : Word
  deriving DecidableEq, Inhabited

namespace Proposal

def ofSubmission (s : Submission) : Proposal where
  id := s.id
  command := s.command
  floor := s.floor
  slot := s.floor
  ballot := .zero
  phase := .backoff
  attempts := 0
  attempt := 0

/-- Whether an answer for `slot` and `ballot` concerns the current attempt. -/
def isCurrent (p : Proposal) (slot : Slot) (ballot : Ballot) : Bool :=
  p.slot = slot ∧ p.ballot = ballot

def inPhase (p : Proposal) (phase : Phase) : Proposal := { p with phase := phase }

/-- The proposal at the start of an attempt. -/
def reopened (p : Proposal) (slot : Slot) (ballot : Ballot) (attempts : UInt32) (attempt : Word) :
    Proposal :=
  { p with
    slot := slot
    ballot := ballot
    attempts := attempts
    attempt := attempt
    phase := .preparing ∅ }

def isBackingOff (p : Proposal) : Bool :=
  match p.phase with
  | .backoff => true
  | _ => false

/-- The accepted value of the two that has the higher ballot; of equal ballots the second one
decides. -/
def higherAccepted (best promise : Option (Ballot × Command)) : Option (Ballot × Command) :=
  match best, promise with
  | _, none => best
  | none, some p => some p
  | some b, some p => if p.1 < b.1 then some b else some p

/-- The value accepted under the highest ballot; of equal ballots the last one decides. -/
def highestAccepted (promises : List (Option (Ballot × Command))) : Option (Ballot × Command) :=
  promises.foldl higherAccepted none

/-- The value to ask acceptance for once a majority has promised: whatever may have been chosen
already comes before the proposal's own command. -/
def valueFor (p : Proposal) (promises : SortedMap ReplicaId (Option (Ballot × Command))) : Command :=
  match highestAccepted promises.values with
  | some accepted => accepted.2
  | none => p.command

end Proposal

end ReplicatedLedger
