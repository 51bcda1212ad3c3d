import ReplicatedLedger.Consensus.ReplicatedLog.Basic

/-!
The proposer.  An attempt asks the group for promises, then for acceptance of a value, and announces
the value once a majority has accepted it.  The replica's own acceptor answers at once, so that in a
group of one a single step may complete many proposals; `pursue` goes on until nothing more can be
done without hearing from others.
-/

namespace ReplicatedLedger

namespace ReplicatedLog

/-- How a new attempt counts: moving on from a slot that another command took is no failure. -/
inductive Charge where
  | charged
  | free
  deriving DecidableEq, Repr

def Charge.count (attempts : UInt32) : Charge → Except Fault UInt32
  | .charged => sumCounts attempts 1
  | .free => .ok attempts

/-- A log on its way through a step: the actions so far, and the attempt that is now due. -/
structure Progress where
  log : ReplicatedLog
  actions : List Action := []
  due : Option Charge := none

namespace Progress

def after (actions : List Action) (p : Progress) : Progress :=
  { p with actions := actions ++ p.actions }

end Progress

def promote (l : ReplicatedLog) : Progress :=
  match l.waiting with
  | [] => { log := l }
  | s :: rest =>
    { log := { l with active := some (.ofSubmission s), waiting := rest }, due := some .charged }

def complete (l : ReplicatedLog) (p : Proposal) (result : Except LedgerError Slot) : Progress :=
  let ended : ReplicatedLog :=
    { l with active := none, completions := l.completions ++ [⟨p.id, p.command, result⟩] }
  .after [.cancelTimer (.attempt p.attempt), .cancelTimer (.retry p.attempt)] ended.promote

/-- Gives up the current attempt after a refusal of its ballot. -/
def onRefusal (l : ReplicatedLog) (slot : Slot) (ballot promised : Ballot) :
    Except Fault Progress :=
  let l := l.observe promised
  match l.active with
  | none => .ok { log := l }
  | some p =>
    if p.isCurrent slot ballot && !p.isBackingOff then
      let p := p.inPhase .backoff
      let l := l.withActive p
      let cancel := Action.cancelTimer (.attempt p.attempt)
      if l.policy.maxAttempts ≤ p.attempts then
        .ok (.after [cancel] (l.complete p (.error (.staleBallot promised))))
      else do
        let pause ← l.policy.backoff ((l.topology.position? l.replica).getD 0) p.attempts
        return { log := l, actions := [cancel, .setTimer (.retry p.attempt) pause] }
    else .ok { log := l }

/-- Settles the active proposal with what has been learned: its command may have been chosen, or
another command may have taken its slot. -/
def afterLearning (l : ReplicatedLog) : Progress :=
  match l.active with
  | none => { log := l }
  | some p =>
    match l.chosenSince? p.command p.floor with
    | some slot => l.complete p (.ok slot)
    | none => if l.chosen.contains p.slot then { log := l, due := some .free } else { log := l }

def onAcceptance (l : ReplicatedLog) (sender : ReplicaId) (slot : Slot) (ballot : Ballot) :
    Progress :=
  match l.active with
  | none => { log := l }
  | some p =>
    match p.phase with
    | .accepting value accepted =>
      if p.isCurrent slot ballot then
        let accepted := accepted.insert sender ()
        let l := l.withActive (p.inPhase (.accepting value accepted))
        if l.topology.quorum ≤ accepted.size then
          let entry : LogEntry := ⟨slot, ballot, value⟩
          .after (l.sendToPeers (.chosen entry)) (l.learn entry).afterLearning
        else { log := l }
      else { log := l }
    | _ => { log := l }

/-- Asks for acceptance of a value, the replica's own acceptor first. -/
def requestAcceptance (l : ReplicatedLog) (p : Proposal) (value : Command) :
    Except Fault Progress :=
  let l := l.withActive (p.inPhase (.accepting value ∅))
  let requests := l.sendToPeers (.accept p.ballot p.slot value)
  match l.acceptor.accept p.slot p.ballot value with
  | (acceptor, .ok ()) =>
    .ok (.after requests ((l.withAcceptor acceptor).onAcceptance l.replica p.slot p.ballot))
  | (acceptor, .error promised) => do
    return .after requests (← (l.withAcceptor acceptor).onRefusal p.slot p.ballot promised)

def onPromise (l : ReplicatedLog) (sender : ReplicaId) (slot : Slot) (ballot : Ballot)
    (accepted : Option (Ballot × Command)) : Except Fault Progress :=
  match l.active with
  | none => .ok { log := l }
  | some p =>
    match p.phase with
    | .preparing promises =>
      if p.isCurrent slot ballot then
        let promises := promises.insert sender accepted
        let p := p.inPhase (.preparing promises)
        let l := l.withActive p
        if l.topology.quorum ≤ promises.size then l.requestAcceptance p (p.valueFor promises)
        else .ok { log := l }
      else .ok { log := l }
    | _ => .ok { log := l }

/-- The log with a new attempt of `p` on its way, and the number that the one after it will have. -/
def reopen (l : ReplicatedLog) (p : Proposal) (slot : Slot) (ballot : Ballot) (attempts : UInt32)
    (next : Word) : ReplicatedLog :=
  { l.observe ballot with
    active := some (p.reopened slot ballot attempts l.nextAttempt)
    nextAttempt := next }

/-- Asks for promises under a new ballot, the replica's own acceptor first. -/
def requestPromises (l : ReplicatedLog) (p : Proposal) (slot : Slot) (ballot : Ballot)
    (attempts : UInt32) (next : Word) : Except Fault Progress :=
  let timers : List Action :=
    [.cancelTimer (.attempt p.attempt), .cancelTimer (.retry p.attempt),
      .setTimer (.attempt l.nextAttempt) l.policy.attemptTimeout]
  let l := l.reopen p slot ballot attempts next
  let requests := l.sendToPeers (.prepare ballot slot)
  match l.acceptor.prepare slot ballot with
  | (acceptor, .ok accepted) => do
    return .after (timers ++ requests)
      (← (l.withAcceptor acceptor).onPromise l.replica slot ballot accepted)
  | (acceptor, .error promised) => do
    return .after (timers ++ requests) (← (l.withAcceptor acceptor).onRefusal slot ballot promised)

/-- Starts an attempt of the active proposal on the first open slot, unless its command has been
chosen meanwhile. -/
def beginAttempt (l : ReplicatedLog) (charge : Charge) : Except Fault Progress :=
  match l.active with
  | none => .ok { log := l }
  | some p =>
    match l.chosenSince? p.command p.floor with
    | some slot => .ok (l.complete p (.ok slot))
    | none => do
      let slot ← l.firstOpenSlot
      let ballot ← (max l.highestBallot (l.acceptor.promised slot)).nextFor l.replica
      let next ← Word.sum l.nextAttempt 1
      l.requestPromises p slot ballot (← charge.count p.attempts) next

def pursueUpTo : Nat → Progress → Except Fault (ReplicatedLog × List Action)
  | 0, p => .ok (p.log, p.actions)
  | limit + 1, p =>
    match p.due with
    | none => .ok (p.log, p.actions)
    | some charge => do pursueUpTo limit (.after p.actions (← p.log.beginAttempt charge))

/-- A bound on the attempts of one step.  An attempt that leaves another one due has completed a
proposal or has decided a slot on which the own acceptor held a vote. -/
def attemptBound (l : ReplicatedLog) : Nat := l.pendingProposals + l.acceptor.openSlots + 1

def pursue (p : Progress) : Except Fault (ReplicatedLog × List Action) :=
  pursueUpTo p.log.attemptBound p

def submitted (l : ReplicatedLog) (c : Command) (next : Word) : ReplicatedLog :=
  { l with
    nextProposal := next
    waiting := l.waiting ++ [⟨⟨l.nextProposal⟩, c, l.nextApply⟩] }

/-- Submits a command.  A copy of it that is chosen from the applied prefix on settles the
proposal. -/
def propose (l : ReplicatedLog) (c : Command) :
    Except Fault (ReplicatedLog × ProposalId × List Action) := do
  let id : ProposalId := ⟨l.nextProposal⟩
  let l := l.submitted c (← Word.sum l.nextProposal 1)
  let (l, actions) ← pursue (if l.active.isSome then { log := l } else l.promote)
  return (l, id, actions)

end ReplicatedLog

end ReplicatedLedger
