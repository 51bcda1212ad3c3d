import ReplicatedLedger.Agenda.Basic
import ReplicatedLedger.Routing
import ReplicatedLedger.Simulation.Network

/-!
A deterministic simulation of all replicas under one clock.  Each event goes to its replica, and
what the replica asks for in return is scheduled in its turn; the network alone draws on chance.
-/

namespace ReplicatedLedger

/-- Counts of what happened in a simulation. -/
structure SimulationStats where
  events : Word := 0
  sent : Word := 0
  /-- Messages that were sent and lost. -/
  dropped : Word := 0
  timers : Word := 0
  responses : Word := 0
  deriving DecidableEq, Repr, Inhabited

/-- Counts an event that is taken. -/
def SimulationStats.count (stats : SimulationStats) : Event → Except Fault SimulationStats
  | .timer _ => do
    return { stats with timers := ← Word.sum stats.timers 1, events := ← Word.sum stats.events 1 }
  | .message .. | .request .. => do
    return { stats with events := ← Word.sum stats.events 1 }

structure Simulation (σ : Type) where
  routing : RoutingTable
  network : Network
  random : Random.Generator
  machines : SortedMap ReplicaId σ
  agenda : Agenda := {}
  /-- Answers that have arrived and have not been taken. -/
  responses : SortedMap RequestId Response := ∅
  nextRequest : Word := 0
  stats : SimulationStats := {}

namespace Simulation

variable {σ : Type}

def now (s : Simulation σ) : Duration := s.agenda.now

def isIdle (s : Simulation σ) : Bool := s.agenda.isEmpty

/-! ### Actions -/

def send (s : Simulation σ) (sender receiver : ReplicaId) (m : Message) :
    Except Fault (Simulation σ) := do
  let stats := { s.stats with sent := ← Word.sum s.stats.sent 1 }
  match s.network.delay s.random with
  | (some delay, random) =>
    return { s with
      stats := stats
      random := random
      agenda := ← s.agenda.schedule receiver delay (.message sender m) }
  | (none, random) =>
    return { s with
      stats := { stats with dropped := ← Word.sum stats.dropped 1 }
      random := random }

def perform (s : Simulation σ) (actor : ReplicaId) : Action → Except Fault (Simulation σ)
  | .send receiver m => s.send actor receiver m
  | .setTimer t after => do return { s with agenda := ← s.agenda.arm ⟨actor, t⟩ after }
  | .cancelTimer t => .ok { s with agenda := s.agenda.disarm ⟨actor, t⟩ }
  | .respond id response => do
    return { s with
      stats := { s.stats with responses := ← Word.sum s.stats.responses 1 }
      responses := s.responses.insert id response }

def performAll (s : Simulation σ) (actor : ReplicaId) (actions : List Action) :
    Except Fault (Simulation σ) :=
  actions.foldlM (·.perform actor ·) s

/-! ### Running -/

variable [Machine σ]

/-- Gives an event to a replica, if there is such a replica. -/
def deliver (s : Simulation σ) (site : ReplicaId) (e : Event) : Except Fault (Simulation σ) :=
  match s.machines.get? site with
  | none => .ok s
  | some machine => do
    let (machine, actions) ← Machine.handle (Machine.setTime machine s.now) e
    let moved := { s with machines := s.machines.insert site machine }
    moved.performAll site actions

/-- Takes the first event and delivers it; nothing if no event is left. -/
def step? (s : Simulation σ) : Except Fault (Option (Simulation σ)) :=
  match s.agenda.take? with
  | none => .ok none
  | some (key, e, agenda) => do
    let taken := { s with agenda := agenda, stats := ← s.stats.count e }
    return some (← taken.deliver key.site e)

/-- Takes events while a condition holds, at most `limit` of them. -/
def runWhile (condition : Simulation σ → Bool) :
    Nat → Simulation σ → Except Fault (Simulation σ)
  | 0, s => .ok s
  | limit + 1, s =>
    if condition s then do
      match ← s.step? with
      | some s => runWhile condition limit s
      | none => return s
    else .ok s

/-- Takes up to `n` events. -/
def stepUpTo (s : Simulation σ) (n : Nat) : Except Fault (Simulation σ) :=
  runWhile (fun _ => true) n s

/-- More events than a run takes before all requests are settled. -/
def eventLimit : Nat := 1000000000

/-- Takes the events up to a time, that time included, and moves the clock on to it.  While events
are left that are due by then, the clock stays where it is. -/
def runUntil (s : Simulation σ) (deadline : Duration) : Except Fault (Simulation σ) := do
  let s ← runWhile (·.agenda.isDue deadline) eventLimit s
  return if s.agenda.isDue deadline then s else { s with agenda := s.agenda.advance deadline }

/-- Takes events until none is left. -/
def runUntilIdle (s : Simulation σ) : Except Fault (Simulation σ) :=
  runWhile (fun _ => true) eventLimit s

end Simulation

end ReplicatedLedger
