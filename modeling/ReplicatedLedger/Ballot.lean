import ReplicatedLedger.Identifier

/-!
Ballots number the attempts to choose a value.  They are ordered by round, then by the replica that
owns them, so two replicas never own the same ballot.
-/

namespace ReplicatedLedger

open Std

structure Ballot where
  round : Word
  replica : ReplicaId
  deriving DecidableEq, Repr, Inhabited

namespace Ballot

instance : Ord Ballot := ⟨compareLex (compareOn round) (compareOn replica)⟩

instance : TransOrd Ballot :=
  inferInstanceAs (TransCmp (compareLex (compareOn round) (compareOn replica)))

instance : LawfulEqOrd Ballot where
  eq_of_compare {a b} h := by
    have h := Ordering.then_eq_eq.1 (show (compareOn round a b).then (compareOn replica a b) = .eq from h)
    have hr : a.round = b.round := LawfulEqOrd.eq_of_compare h.1
    have hp : a.replica = b.replica := LawfulEqOrd.eq_of_compare h.2
    cases a; cases b; simp_all

instance : LT Ballot := ltOfOrd
instance : LE Ballot := leOfOrd
instance : Max Ballot := ⟨fun a b => if a ≤ b then b else a⟩

/-- Below every ballot that a replica starts. -/
def zero : Ballot := ⟨0, ⟨0⟩⟩

/-- A ballot of `replica` above this one. -/
def nextFor (b : Ballot) (replica : ReplicaId) : Except Fault Ballot :=
  (⟨·, replica⟩) <$> Word.sum b.round 1

def text (b : Ballot) : String :=
  "(" ++ toString b.round ++ ", " ++ b.replica.text ++ ")"

end Ballot

end ReplicatedLedger
