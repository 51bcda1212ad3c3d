import ReplicatedLedger.Replica

/-!
A replica in service.  It takes the events of its inbox one at a time, and after each it publishes
its books if entries were applied, so that readers need not wait for it.
-/

namespace ReplicatedLedger

structure Server where
  replica : Replica
  published : Books.Snapshot
  /-- Events that have arrived, the oldest first. -/
  inbox : List Event := []
  /-- The number of the next request.  Once it is past the last word it begins anew. -/
  nextRequest : Word := 0
  /-- Answers to requests. -/
  answers : SortedMap RequestId Response := ∅
  isRunning : Bool := true
  deriving DecidableEq

namespace Server

def start (r : Replica) : Server := { replica := r, published := r.snapshot }

def receive (s : Server) (e : Event) : Server := { s with inbox := s.inbox ++ [e] }

/-- Publishes the books anew when entries were applied since the last time. -/
def publish (s : Server) : Server :=
  if s.replica.books.applied.length = s.published.applied.length then s
  else { s with published := s.replica.snapshot }

/-- Handles an event and publishes what became of the books, before any action is carried out. -/
def process (s : Server) (now : Duration) (e : Event) : Except Fault (Server × List Action) := do
  let (r, actions) ← Machine.handle (Machine.setTime s.replica now) e
  return ({ s with replica := r }.publish, actions)

/-- A server that is stopped handles no more events.  What it published last can still be read. -/
def stop (s : Server) : Server := { s with inbox := [], isRunning := false }

end Server

end ReplicatedLedger
