import ReplicatedLedger.Entry

/-!
Messages between the replicas of a group: the two rounds that choose a value for a slot, the
announcement of a chosen value, and the exchange by which a replica that is behind catches up.
-/

namespace ReplicatedLedger

inductive Message where
  /-- Asks for a promise to accept nothing below `ballot`. -/
  | prepare (ballot : Ballot) (slot : Slot)
  /-- Gives that promise, with the value accepted last. -/
  | promise (ballot : Ballot) (slot : Slot) (accepted : Option (Ballot × Command))
  /-- Asks to accept a value. -/
  | accept (ballot : Ballot) (slot : Slot) (command : Command)
  | accepted (ballot : Ballot) (slot : Slot)
  /-- Refuses `ballot`, since a higher one was promised. -/
  | nack (ballot : Ballot) (slot : Slot) (promised : Ballot)
  /-- Announces a value that a majority accepted. -/
  | chosen (entry : LogEntry)
  | catchUpRequest (start : Slot)
  | catchUpResponse (entries : List LogEntry)
  deriving DecidableEq, Repr, Inhabited

namespace Message

/-- The kinds of message, without their contents. -/
inductive Kind where
  | prepare | promise | accept | accepted | nack | chosen | catchUpRequest | catchUpResponse
  deriving DecidableEq, Repr

def kind : Message → Kind
  | prepare .. => .prepare
  | promise .. => .promise
  | accept .. => .accept
  | accepted .. => .accepted
  | nack .. => .nack
  | chosen .. => .chosen
  | catchUpRequest .. => .catchUpRequest
  | catchUpResponse .. => .catchUpResponse

namespace Kind

def all : List Kind :=
  [prepare, promise, accept, accepted, nack, chosen, catchUpRequest, catchUpResponse]

def name : Kind → String
  | prepare => "Prepare"
  | promise => "Promise"
  | accept => "Accept"
  | accepted => "Accepted"
  | nack => "Nack"
  | chosen => "Chosen"
  | catchUpRequest => "CatchUpRequest"
  | catchUpResponse => "CatchUpResponse"

/-- The name under which a kind is registered on the wire. -/
def wireName : Kind → String
  | prepare => "paxos.prepare"
  | promise => "paxos.promise"
  | accept => "paxos.accept"
  | accepted => "paxos.accepted"
  | nack => "paxos.nack"
  | chosen => "paxos.chosen"
  | catchUpRequest => "log.catch_up.request"
  | catchUpResponse => "log.catch_up.response"

def isCatchUp : Kind → Bool
  | catchUpRequest | catchUpResponse => true
  | _ => false

end Kind

def name (m : Message) : String := m.kind.name

/-- The slot of the last entry of a list. -/
def lastSlot? (entries : List LogEntry) : Option Slot := entries.getLast?.map (·.slot)

end Message

end ReplicatedLedger
