import ReplicatedLedger.Agenda.Basic
import ReplicatedLedger.Cluster.Server
import ReplicatedLedger.Config.Basic

/-!
All servers of a deployment, with the messages between them.  A message without latency goes
straight into the inbox of its receiver, or is lost if the inbox is full; others wait on the agenda
beside the timers.
-/

namespace ReplicatedLedger

structure Cluster where
  routing : RoutingTable
  latency : Duration
  inboxCapacity : Nat
  requestTimeout : Duration
  servers : SortedMap ReplicaId Server
  /-- The servers that have events to handle, in the order in which they got the first. -/
  ready : List ReplicaId := []
  agenda : Agenda := {}
  deriving DecidableEq

inductive ClusterError where
  | config (e : ConfigError)
  | routing (e : RoutingError)
  deriving DecidableEq, Repr

namespace Cluster

/-- A cluster of fresh replicas. -/
def start (c : ClusterConfig) : Except Fault (Except ClusterError Cluster) :=
  match c.validate with
  | .error e => .ok (.error (.config e))
  | .ok () => do
    let routing ← c.routing
    match routing.replicas.mapM fun r =>
        (fun t => (r, Server.start (.start t c.replicaPolicy))) <$> Topology.of routing r with
    | .error e => return .error (.routing e)
    | .ok servers =>
      return .ok {
        routing := routing
        latency := c.linkLatency
        inboxCapacity := c.network.inboxCapacity.toNat
        requestTimeout := c.requestTimeout
        servers := .ofList servers }

def now (c : Cluster) : Duration := c.agenda.now

def running? (c : Cluster) (site : ReplicaId) : Option Server :=
  (c.servers.get? site).filter (·.isRunning)

/-- Puts an event into a server's inbox.  One that does not run gets none. -/
def post (c : Cluster) (site : ReplicaId) (e : Event) : Cluster :=
  match c.running? site with
  | none => c
  | some server =>
    { c with
      servers := c.servers.insert site (server.receive e)
      ready := if server.inbox.isEmpty then c.ready ++ [site] else c.ready }

/-! ### Actions -/

def send (c : Cluster) (sender receiver : ReplicaId) (m : Message) : Except Fault Cluster :=
  match c.running? receiver with
  | none => .ok c
  | some server =>
    if c.latency = .zero then
      .ok (if server.inbox.length < c.inboxCapacity then c.post receiver (.message sender m) else c)
    else do
      return { c with agenda := ← c.agenda.schedule receiver c.latency (.message sender m) }

def answer (c : Cluster) (site : ReplicaId) (id : RequestId) (response : Response) : Cluster :=
  match c.servers.get? site with
  | none => c
  | some server =>
    { c with
      servers := c.servers.insert site { server with answers := server.answers.insert id response } }

def perform (c : Cluster) (actor : ReplicaId) : Action → Except Fault Cluster
  | .send receiver m => c.send actor receiver m
  | .setTimer t after => do return { c with agenda := ← c.agenda.arm ⟨actor, t⟩ after }
  | .cancelTimer t => .ok { c with agenda := c.agenda.disarm ⟨actor, t⟩ }
  | .respond id response => .ok (c.answer actor id response)

def performAll (c : Cluster) (actor : ReplicaId) (actions : List Action) :
    Except Fault Cluster :=
  actions.foldlM (·.perform actor ·) c

def stop (c : Cluster) (site : ReplicaId) : Cluster :=
  match c.servers.get? site with
  | none => c
  | some server =>
    { c with
      servers := c.servers.insert site server.stop
      ready := c.ready.filter (· ≠ site)
      agenda := c.agenda.disarmAll site }

/-! ### Running -/

/-- Lets the first server that is ready handle its oldest event. -/
def serve (c : Cluster) (site : ReplicaId) (rest : List ReplicaId) : Except Fault Cluster :=
  match c.servers.get? site with
  | none => .ok { c with ready := rest }
  | some server =>
    match server.inbox with
    | [] => .ok { c with ready := rest }
    | e :: inbox => do
      let (server, actions) ← { server with inbox := inbox }.process c.now e
      let ready := if inbox.isEmpty then rest else site :: rest
      { c with servers := c.servers.insert site server, ready := ready }.performAll site actions

/-- Serves, or if all inboxes are empty moves the clock to the next event on the agenda. -/
def step? (c : Cluster) : Except Fault (Option Cluster) :=
  match c.ready with
  | site :: rest => some <$> c.serve site rest
  | [] =>
    match c.agenda.take? with
    | none => .ok none
    | some (key, e, agenda) => .ok (some ({ c with agenda := agenda }.post key.site e))

/-- Takes up to `limit` steps, until nothing is left to do. -/
def runUpTo : Nat → Cluster → Except Fault Cluster
  | 0, c => .ok c
  | limit + 1, c => do
    match ← c.step? with
    | some c => runUpTo limit c
    | none => return c

/-- More steps than it takes until all requests are settled. -/
def stepLimit : Nat := 1000000000

/-- Runs until every server waits for requests. -/
def settle (c : Cluster) : Except Fault Cluster := runUpTo stepLimit c

end Cluster

end ReplicatedLedger
