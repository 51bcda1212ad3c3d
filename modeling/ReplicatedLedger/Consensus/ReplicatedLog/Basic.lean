import ReplicatedLedger.Consensus.Acceptor
import ReplicatedLedger.Consensus.Policy
import ReplicatedLedger.Consensus.Proposal
import ReplicatedLedger.Event
import ReplicatedLedger.Partition
import ReplicatedLedger.Topology

/-!
One replica's copy of its shard's log: the entries known to be chosen, the votes on slots still
open, and the commands that this replica is trying to have chosen, one at a time.
-/

namespace ReplicatedLedger

structure ReplicatedLog where
  topology : Topology
  policy : ConsensusPolicy
  partition : Partition := {}
  acceptor : Acceptor := {}
  chosen : SortedMap Slot LogEntry := ∅
  /-- The slots at which each chosen command stands. -/
  slotsOf : SortedMap Command (SortedSet Slot) := ∅
  /-- The first slot not yet handed out to be applied. -/
  nextApply : Slot := .first
  /-- At or above every ballot seen in a message; new ballots go beyond it. -/
  highestBallot : Ballot := .zero
  active : Option Proposal := none
  waiting : List Submission := []
  nextProposal : Word := 0
  nextAttempt : Word := 0
  completions : List Completion := []
  deriving DecidableEq

namespace ReplicatedLog

def replica (l : ReplicatedLog) : ReplicaId := l.topology.replica

/-! ### What is known to be chosen -/

def chosenAt? (l : ReplicatedLog) (s : Slot) : Option LogEntry := l.chosen.get? s

/-- The entries handed out so far. -/
def entries (l : ReplicatedLog) : List LogEntry := (l.chosen.below l.nextApply).map (·.2)

/-- The first slot from `s` on that is missing from an ascending list of slots. -/
def firstMissing (s : Slot) : List Slot → Except Fault Slot
  | [] => .ok s
  | k :: rest => if k = s then do firstMissing (← s.next) rest else firstMissing s rest

/-- The lowest slot from `nextApply` on that is not known to be chosen. -/
def firstOpenSlot (l : ReplicatedLog) : Except Fault Slot := firstMissing l.nextApply l.chosen.keys

/-- The lowest slot from `floor` on at which `c` was chosen. -/
def chosenSince? (l : ReplicatedLog) (c : Command) (floor : Slot) : Option Slot :=
  match l.slotsOf.get? c with
  | some slots => (slots.atOrAbove floor).head?.map (·.1)
  | none => none

def observe (l : ReplicatedLog) (b : Ballot) : ReplicatedLog :=
  { l with highestBallot := max l.highestBallot b }

def withActive (l : ReplicatedLog) (p : Proposal) : ReplicatedLog := { l with active := some p }

def withAcceptor (l : ReplicatedLog) (a : Acceptor) : ReplicatedLog := { l with acceptor := a }

/-- Whether `learn` takes the entry: the first one heard of for its slot is the one that counts. -/
def isNews (l : ReplicatedLog) (e : LogEntry) : Bool := !l.chosen.contains e.slot

/-- Takes note of a chosen entry, which makes the votes on its slot needless. -/
def learn (l : ReplicatedLog) (e : LogEntry) : ReplicatedLog :=
  if l.isNews e then
    { l.observe e.ballot with
      acceptor := l.acceptor.forget e.slot
      slotsOf := l.slotsOf.insert e.command (((l.slotsOf.get? e.command).getD ∅).insert e.slot ())
      chosen := l.chosen.insert e.slot e }
  else l

/-- Takes entries off an ascending list as long as their slots follow on from `s`. -/
def drainFrom (s : Slot) : List (Slot × LogEntry) → Except Fault (Slot × List LogEntry)
  | [] => .ok (s, [])
  | (k, e) :: rest =>
    if k = s then do
      let (stop, ready) ← drainFrom (← s.next) rest
      return (stop, e :: ready)
    else drainFrom s rest

/-- Hands out the chosen entries that follow on from those handed out before.  Entries behind a gap
are kept back. -/
def drainApplicable (l : ReplicatedLog) : Except Fault (ReplicatedLog × List LogEntry) := do
  let (stop, ready) ← drainFrom l.nextApply l.chosen.toList
  return ({ l with nextApply := stop }, ready)

/-! ### Sending and hearing -/

/-- A replica hears itself, and the members of its group that it can reach. -/
def hears (l : ReplicatedLog) (sender : ReplicaId) : Bool :=
  sender = l.replica || (l.topology.isMember sender && l.partition.reaches sender)

def sendTo (l : ReplicatedLog) (receiver : ReplicaId) (m : Message) : List Action :=
  if receiver = l.replica || l.partition.reaches receiver then [.send receiver m] else []

def sendToPeers (l : ReplicatedLog) (m : Message) : List Action :=
  l.topology.peers.flatMap fun peer => l.sendTo peer m

/-- Asks every reachable peer for the entries that are missing here. -/
def requestCatchUp (l : ReplicatedLog) : Except Fault (List Action) := do
  return l.sendToPeers (.catchUpRequest (← l.firstOpenSlot))

/-! ### Proposals -/

/-- The number of proposals submitted and not completed. -/
def pendingProposals (l : ReplicatedLog) : Nat :=
  l.waiting.length + if l.active.isSome then 1 else 0

/-- Hands over the completions gathered since the last call. -/
def takeCompletions (l : ReplicatedLog) : ReplicatedLog × List Completion :=
  ({ l with completions := [] }, l.completions)

end ReplicatedLog

end ReplicatedLedger
