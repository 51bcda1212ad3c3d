import ReplicatedLedger.Event
import ReplicatedLedger.SortedMap

/-!
A group of machines with the messages in flight between them and their armed timers, moved by hand:
the caller decides which message is delivered, lost or doubled, and which timer runs out.
-/

namespace ReplicatedLedger

structure Envelope where
  sender : ReplicaId
  receiver : ReplicaId
  message : Message
  deriving DecidableEq, Repr, Inhabited

/-- The arrival of a message, as an event at its receiver. -/
def Envelope.delivery (m : Envelope) : ReplicaId × Event := (m.receiver, .message m.sender m.message)

structure MessagePool (σ : Type) where
  machines : SortedMap ReplicaId σ
  inFlight : List Envelope := []
  timers : SortedMap ReplicaTimer Duration := ∅

namespace MessagePool

variable {σ : Type}

/-- An event that was handled at a replica, and the actions it led to; there are none of them if
there is no such replica. -/
structure Report where
  receiver : ReplicaId
  event : Event
  actions : Option (List Action)

/-- Takes up one action of a replica.  A response leaves the pool. -/
def absorb (p : MessagePool σ) (actor : ReplicaId) : Action → MessagePool σ
  | .send receiver m => { p with inFlight := p.inFlight ++ [⟨actor, receiver, m⟩] }
  | .setTimer t after => { p with timers := p.timers.insert ⟨actor, t⟩ after }
  | .cancelTimer t => { p with timers := p.timers.erase ⟨actor, t⟩ }
  | .respond .. => p

def absorbAll (p : MessagePool σ) (actor : ReplicaId) (actions : List Action) : MessagePool σ :=
  actions.foldl (·.absorb actor ·) p

/-- Replaces a machine and takes up its actions. -/
def update (p : MessagePool σ) (site : ReplicaId) (machine : σ) (actions : List Action) :
    MessagePool σ :=
  let moved : MessagePool σ := { p with machines := p.machines.insert site machine }
  moved.absorbAll site actions

variable [Machine σ]

def feed (p : MessagePool σ) (site : ReplicaId) (e : Event) :
    Except Fault (MessagePool σ × Report) :=
  match p.machines.get? site with
  | none => .ok (p, ⟨site, e, none⟩)
  | some machine => do
    let (machine, actions) ← Machine.handle machine e
    return (p.update site machine actions, ⟨site, e, some actions⟩)

def feedAll (p : MessagePool σ) :
    List (ReplicaId × Event) → Except Fault (MessagePool σ × List Report)
  | [] => .ok (p, [])
  | (site, e) :: rest => do
    let (p, report) ← p.feed site e
    let (p, reports) ← p.feedAll rest
    return (p, report :: reports)

/-- Takes the message at a position out of the pool. -/
def take? (p : MessagePool σ) (i : Nat) : Option (Envelope × MessagePool σ) :=
  (p.inFlight[i]?).map fun m => (m, { p with inFlight := p.inFlight.eraseIdx i })

/-- Puts a copy of the message at a position last. -/
def duplicate (p : MessagePool σ) (i : Nat) : MessagePool σ :=
  { p with inFlight := p.inFlight ++ (p.inFlight[i]?).toList }

/-- Takes out all messages that a condition holds of. -/
def takeWhere (p : MessagePool σ) (condition : Envelope → Bool) :
    List Envelope × MessagePool σ :=
  (p.inFlight.filter condition, { p with inFlight := p.inFlight.filter (!condition ·) })

def deliver (p : MessagePool σ) (i : Nat) : Except Fault (MessagePool σ × Option Report) :=
  match p.take? i with
  | none => .ok (p, none)
  | some (m, p) => do
    let (p, report) ← p.feed m.receiver (.message m.sender m.message)
    return (p, some report)

def deliverWhere (p : MessagePool σ) (condition : Envelope → Bool) :
    Except Fault (MessagePool σ × List Report) :=
  let (messages, p) := p.takeWhere condition
  p.feedAll (messages.map Envelope.delivery)

/-- Delivers messages from the front, and those sent in reply after them, at most `limit` in all. -/
def deliverUpTo : Nat → MessagePool σ → Except Fault (MessagePool σ × List Report)
  | 0, p => .ok (p, [])
  | limit + 1, p => do
    match ← p.deliver 0 with
    | (p, none) => return (p, [])
    | (p, some report) =>
      let (p, reports) ← deliverUpTo limit p
      return (p, report :: reports)

/-- More messages than any exchange between two rounds of timers takes. -/
def deliveryLimit : Nat := 1000000

/-- Delivers messages until none is in flight. -/
def deliverAll (p : MessagePool σ) : Except Fault (MessagePool σ × List Report) :=
  deliverUpTo deliveryLimit p

/-- Lets an armed timer run out. -/
def fire (p : MessagePool σ) (site : ReplicaId) (t : Timer) :
    Except Fault (MessagePool σ × Option Report) :=
  if p.timers.contains ⟨site, t⟩ then do
    let disarmed : MessagePool σ := { p with timers := p.timers.erase ⟨site, t⟩ }
    let (p, report) ← disarmed.feed site (.timer t)
    return (p, some report)
  else .ok (p, none)

/-- Lets all timers that are armed now run out in order, also those that an earlier one cancels. -/
def fireAll (p : MessagePool σ) : Except Fault (MessagePool σ × List Report) :=
  let disarmed : MessagePool σ := { p with timers := ∅ }
  disarmed.feedAll (p.timers.keys.map fun (t : ReplicaTimer) => (t.replica, .timer t.timer))

/-- Delivers all messages and fires all timers by turns, at most `rounds` times, until no timer is
armed. -/
def settle : Nat → MessagePool σ → Except Fault (MessagePool σ × List Report)
  | 0, p => .ok (p, [])
  | rounds + 1, p => do
    let (p, delivered) ← p.deliverAll
    if p.timers.isEmpty then return (p, delivered)
    else
      let (p, fired) ← p.fireAll
      let (p, rest) ← settle rounds p
      return (p, delivered ++ fired ++ rest)

end MessagePool

end ReplicatedLedger
