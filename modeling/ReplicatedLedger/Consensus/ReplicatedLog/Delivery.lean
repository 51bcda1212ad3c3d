import ReplicatedLedger.Consensus.ReplicatedLog.Proposing

/-!
What a replica's log does on a message from a peer and when a timer runs out.
-/

namespace ReplicatedLedger

namespace ReplicatedLog

/-- Answers a proposer: with the chosen entry if the slot is decided, else with the acceptor's
word. -/
def answerPrepare (l : ReplicatedLog) (sender : ReplicaId) (ballot : Ballot) (slot : Slot) :
    Progress :=
  let l := l.observe ballot
  match l.chosen.get? slot with
  | some entry => { log := l, actions := l.sendTo sender (.chosen entry) }
  | none =>
    let (acceptor, answer) := l.acceptor.prepare slot ballot
    let reply : Message :=
      match answer with
      | .ok accepted => .promise ballot slot accepted
      | .error promised => .nack ballot slot promised
    { log := l.withAcceptor acceptor, actions := l.sendTo sender reply }

def answerAccept (l : ReplicatedLog) (sender : ReplicaId) (ballot : Ballot) (slot : Slot)
    (command : Command) : Progress :=
  let l := l.observe ballot
  match l.chosen.get? slot with
  | some entry => { log := l, actions := l.sendTo sender (.chosen entry) }
  | none =>
    let (acceptor, answer) := l.acceptor.accept slot ballot command
    let reply : Message :=
      match answer with
      | .ok () => .accepted ballot slot
      | .error promised => .nack ballot slot promised
    { log := l.withAcceptor acceptor, actions := l.sendTo sender reply }

def requestGap (l : ReplicatedLog) (sender : ReplicaId) (upTo : Slot) :
    Except Fault (List Action) := do
  let start ← l.firstOpenSlot
  return if start < upTo then l.sendTo sender (.catchUpRequest start) else []

/-- Learns an announced entry, and asks its sender for what lies before it. -/
def onChosen (l : ReplicatedLog) (sender : ReplicaId) (entry : LogEntry) :
    Except Fault Progress :=
  let known := l.learn entry
  (.after · known.afterLearning) <$>
    if l.isNews entry then known.requestGap sender entry.slot else .ok []

def onCatchUpRequest (l : ReplicatedLog) (sender : ReplicaId) (start : Slot) : Progress :=
  let batch := ((l.chosen.atOrAbove start).take l.policy.catchUpBatch).map (·.2)
  if batch.isEmpty then { log := l }
  else { log := l, actions := l.sendTo sender (.catchUpResponse batch) }

/-- Asks for the batch after this one if this one was full. -/
def requestNextBatch (l : ReplicatedLog) (sender : ReplicaId) (batch : List LogEntry) :
    Except Fault (List Action) :=
  match Message.lastSlot? batch with
  | some last =>
    if l.policy.catchUpBatch ≤ batch.length then
      (fun start => l.sendTo sender (.catchUpRequest start)) <$> last.next
    else .ok []
  | none => .ok []

def onCatchUpResponse (l : ReplicatedLog) (sender : ReplicaId) (batch : List LogEntry) :
    Except Fault Progress :=
  let known := batch.foldl learn l
  (.after · known.afterLearning) <$> known.requestNextBatch sender batch

/-- What a message leads to, before any attempt that is then due. -/
def onMessage (l : ReplicatedLog) (sender : ReplicaId) (m : Message) : Except Fault Progress :=
  if l.hears sender then
    match m with
    | .prepare ballot slot => .ok (l.answerPrepare sender ballot slot)
    | .promise ballot slot accepted =>
      let l := match accepted with
        | some (b, _) => l.observe b
        | none => l
      l.onPromise sender slot ballot accepted
    | .accept ballot slot command => .ok (l.answerAccept sender ballot slot command)
    | .accepted ballot slot => .ok (l.onAcceptance sender slot ballot)
    | .nack ballot slot promised => l.onRefusal slot ballot promised
    | .chosen entry => l.onChosen sender entry
    | .catchUpRequest start => .ok (l.onCatchUpRequest sender start)
    | .catchUpResponse batch => l.onCatchUpResponse sender batch
  else .ok { log := l }

/-- An attempt that ran out of time is repeated until the allowance is used up, and a pause that is
over ends in a new attempt.  A timer of an earlier attempt means nothing. -/
def onTimer (l : ReplicatedLog) (t : Timer) : Progress :=
  match l.active with
  | none => { log := l }
  | some p =>
    match t with
    | .attempt n =>
      if p.attempt = n && !p.isBackingOff then
        if l.policy.maxAttempts ≤ p.attempts then
          l.complete p (.error (.quorumUnavailable p.attempts))
        else { log := l, due := some .charged }
      else { log := l }
    | .retry n =>
      if p.attempt = n && p.isBackingOff then { log := l, due := some .charged } else { log := l }

/-- One event.  Requests of clients are not the log's concern. -/
def handle (l : ReplicatedLog) : Event → Except Fault (ReplicatedLog × List Action)
  | .message sender m => do pursue (← l.onMessage sender m)
  | .timer t => pursue (l.onTimer t)
  | .request .. => .ok (l, [])

instance : Machine ReplicatedLog where
  handle := handle

end ReplicatedLog

end ReplicatedLedger
