import ReplicatedLedger.Duration
import ReplicatedLedger.Message
import ReplicatedLedger.Request

/-!
The interface between a replica and the world: the events that drive it and the actions that it asks
for in return.
-/

namespace ReplicatedLedger

open Std

structure RequestId where
  number : Word
  deriving DecidableEq, Repr, Inhabited

instance : Ord RequestId := ⟨compareOn RequestId.number⟩
instance : TransOrd RequestId := inferInstanceAs (TransCmp (compareOn RequestId.number))
instance : LawfulEqOrd RequestId := lawfulEqCmp_compareOn fun | ⟨_⟩, ⟨_⟩, rfl => rfl

def RequestId.text (r : RequestId) : String := "req-" ++ toString r.number

/-- Timers of a proposal, numbered by attempt. -/
inductive Timer where
  /-- Limits the time of an attempt. -/
  | attempt (number : Word)
  /-- Ends the pause after a lost attempt. -/
  | retry (number : Word)
  deriving DecidableEq, Repr, Inhabited

namespace Timer

def number : Timer → Word
  | attempt n | retry n => n

def kind : Timer → Nat
  | attempt _ => 0
  | retry _ => 1

instance : Ord Timer := ⟨compareLex (compareOn kind) (compareOn number)⟩

instance : TransOrd Timer := inferInstanceAs (TransCmp (compareLex (compareOn kind) (compareOn number)))

instance : LawfulEqOrd Timer where
  compare_self {a} := show compareLex (compareOn kind) (compareOn number) a a = .eq from
    ReflCmp.compare_self
  eq_of_compare {a b} h := by
    have h : (compareOn kind a b).then (compareOn number a b) = .eq := h
    simp only [Ordering.then_eq_eq, compareOn, Std.compare_eq_iff_eq] at h
    cases a <;> cases b <;> simp_all [kind, number]

def name : Timer → String
  | attempt _ => "ProposalAttempt"
  | retry _ => "ProposalRetry"

def text (t : Timer) : String := t.name ++ "(" ++ toString t.number ++ ")"

end Timer

/-- A timer of one of several replicas. -/
structure ReplicaTimer where
  replica : ReplicaId
  timer : Timer
  deriving DecidableEq, Repr, Inhabited

namespace ReplicaTimer

instance : Ord ReplicaTimer := ⟨compareLex (compareOn replica) (compareOn timer)⟩

instance : TransOrd ReplicaTimer :=
  inferInstanceAs (TransCmp (compareLex (compareOn replica) (compareOn timer)))

instance : LawfulEqOrd ReplicaTimer where
  compare_self {a} := show compareLex (compareOn replica) (compareOn timer) a a = .eq from
    ReflCmp.compare_self
  eq_of_compare {a b} h := by
    have h : (compareOn replica a b).then (compareOn timer a b) = .eq := h
    simp only [Ordering.then_eq_eq, compareOn, Std.compare_eq_iff_eq] at h
    cases a; cases b; simp_all

end ReplicaTimer

inductive Event where
  | timer (timer : Timer)
  | message (sender : ReplicaId) (message : Message)
  | request (id : RequestId) (request : Request)
  deriving DecidableEq, Repr, Inhabited

namespace Event

/-- Of the events due at one time, timers come first and clients last. -/
inductive Priority where
  | timer | network | client
  deriving DecidableEq, Repr

def Priority.rank : Priority → Nat
  | timer => 0
  | network => 1
  | client => 2

namespace Priority

instance : Ord Priority := ⟨compareOn rank⟩
instance : TransOrd Priority := inferInstanceAs (TransCmp (compareOn rank))
instance : LawfulEqOrd Priority :=
  lawfulEqCmp_compareOn fun a b h => by cases a <;> cases b <;> simp_all [rank]

end Priority

def priority : Event → Priority
  | timer _ => .timer
  | message .. => .network
  | request .. => .client

def sender? : Event → Option ReplicaId
  | message sender _ => some sender
  | timer _ | request .. => none

def name : Event → String
  | timer (.attempt _) => "ProposalTimeout"
  | timer (.retry _) => "ProposalRetry"
  | message _ m => m.name ++ "Received"
  | request .. => "ClientRequest"

end Event

inductive Action where
  | send (receiver : ReplicaId) (message : Message)
  | setTimer (timer : Timer) (after : Duration)
  | cancelTimer (timer : Timer)
  | respond (id : RequestId) (response : Response)
  deriving DecidableEq, Repr, Inhabited

/-- A state that events move, asking for actions on the way. -/
class Machine (σ : Type) where
  handle : σ → Event → Except Fault (σ × List Action)
  /-- Tells the time at which the next event arrives. -/
  setTime : σ → Duration → σ := fun s _ => s

end ReplicatedLedger
