import ReplicatedLedger.Entry

/-!
The acceptor of a replica.  For each undecided slot it keeps the highest ballot promised and the
value accepted last, and it accepts nothing below a promise.  As any two majorities share a member,
no two values are accepted by a majority for one slot unless the later proposer never asked.
-/

namespace ReplicatedLedger

structure SlotVote where
  promised : Ballot := .zero
  accepted : Option (Ballot × Command) := none
  deriving DecidableEq, Inhabited

structure Acceptor where
  slots : SortedMap Slot SlotVote := ∅
  /-- Every vote cast, the latest first, also on slots dropped since.  No answer depends on it: it
  is kept so that one can speak of past votes. -/
  cast : List LogEntry := []
  deriving DecidableEq, Inhabited

namespace Acceptor

def vote (a : Acceptor) (s : Slot) : SlotVote := (a.slots.get? s).getD {}

def promised (a : Acceptor) (s : Slot) : Ballot := (a.vote s).promised

def accepted (a : Acceptor) (s : Slot) : Option (Ballot × Command) := (a.vote s).accepted

/-- Promises `b` and tells what was accepted before, or refuses with the higher promise. -/
def prepare (a : Acceptor) (s : Slot) (b : Ballot) :
    Acceptor × Except Ballot (Option (Ballot × Command)) :=
  if b < a.promised s then (a, .error (a.promised s))
  else
    ({ a with slots := a.slots.insert s { a.vote s with promised := b } }, .ok (a.accepted s))

/-- Accepts `c` under `b`, or refuses with the higher promise. -/
def accept (a : Acceptor) (s : Slot) (b : Ballot) (c : Command) : Acceptor × Except Ballot Unit :=
  if b < a.promised s then (a, .error (a.promised s))
  else ({ slots := a.slots.insert s ⟨b, some (b, c)⟩, cast := ⟨s, b, c⟩ :: a.cast }, .ok ())

/-- Drops a slot that has been decided. -/
def forget (a : Acceptor) (s : Slot) : Acceptor := { a with slots := a.slots.erase s }

def openSlots (a : Acceptor) : Nat := a.slots.size

end Acceptor

end ReplicatedLedger
