import ReplicatedLedger.Agenda.EventKey

/-!
Events to come under one clock.  Messages, requests and timers that run out wait in one queue;
taking the first event sets the clock to its time.  Of each timer of each replica at most one expiry
is queued.
-/

namespace ReplicatedLedger

structure Agenda where
  queue : SortedMap EventKey Event := ∅
  /-- The queued expiry of each armed timer. -/
  timers : SortedMap ReplicaTimer EventKey := ∅
  /-- The sequence number of the next event to be scheduled. -/
  nextSequence : Word := 0
  now : Duration := .zero
  deriving DecidableEq

namespace Agenda

def isEmpty (a : Agenda) : Bool := a.queue.isEmpty

/-- The key under which an event is scheduled next. -/
def keyFor (a : Agenda) (site : ReplicaId) (delay : Duration) (e : Event) : EventKey where
  time := a.now + delay
  priority := e.priority
  site := site
  sequence := a.nextSequence

def schedule (a : Agenda) (site : ReplicaId) (delay : Duration) (e : Event) :
    Except Fault Agenda := do
  return { a with
    queue := a.queue.insert (a.keyFor site delay e) e
    nextSequence := ← Word.sum a.nextSequence 1 }

/-- Takes an armed timer and its expiry out. -/
def disarm (a : Agenda) (t : ReplicaTimer) : Agenda :=
  match a.timers.get? t with
  | some key => { a with timers := a.timers.erase t, queue := a.queue.erase key }
  | none => a

/-- Disarms all timers of a replica. -/
def disarmAll (a : Agenda) (site : ReplicaId) : Agenda :=
  (a.timers.keys.filter (·.replica = site)).foldl disarm a

/-- Arms a timer, in the stead of an earlier setting. -/
def arm (a : Agenda) (t : ReplicaTimer) (after : Duration) : Except Fault Agenda := do
  let a := a.disarm t
  let key := a.keyFor t.replica after (.timer t.timer)
  return { ← a.schedule t.replica after (.timer t.timer) with timers := a.timers.insert t key }

/-- The armed timers after an event at a replica: one that runs out is no longer armed. -/
def timersAfter (timers : SortedMap ReplicaTimer EventKey) (site : ReplicaId) :
    Event → SortedMap ReplicaTimer EventKey
  | .timer t => timers.erase ⟨site, t⟩
  | .message .. | .request .. => timers

/-- Takes out the first event. -/
def take? (a : Agenda) : Option (EventKey × Event × Agenda) :=
  match a.queue.first? with
  | none => none
  | some (key, e) =>
    some (key, e, { a with
      queue := a.queue.erase key
      timers := timersAfter a.timers key.site e
      now := key.time })

/-- The time of the first event. -/
def firstTime? (a : Agenda) : Option Duration := a.queue.first?.map (·.1.time)

/-- Whether an event is due by a time. -/
def isDue (a : Agenda) (deadline : Duration) : Bool :=
  match a.firstTime? with
  | some time => time ≤ deadline
  | none => false

/-- Moves the clock on to a time that has not passed. -/
def advance (a : Agenda) (time : Duration) : Agenda := { a with now := max a.now time }

end Agenda

end ReplicatedLedger
