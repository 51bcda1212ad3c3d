import ReplicatedLedger.Cluster.Calls
import ReplicatedLedger.CommandLine.Invocation
import ReplicatedLedger.Config.Document
import ReplicatedLedger.FieldText.Response

/-!
Carrying out what the arguments ask for, on a cluster that is started for the purpose.
-/

namespace ReplicatedLedger.CommandLine

/-- What the program leaves behind. -/
structure Report where
  exitCode : UInt32
  output : String := ""
  complaint : String := ""
  deriving DecidableEq, Repr

/-- A cluster and what has been printed so far. -/
structure Session where
  cluster : Cluster
  printed : String := ""

/-- Why a session ends early. -/
inductive Setback where
  | error (message : String)
  | fault (f : Fault)

abbrev Script := ExceptT Setback (StateM Session)

namespace Script

def say (line : String) : Script Unit :=
  modify fun s => { s with printed := s.printed ++ line ++ "\n" }

def fail {α : Type} (message : String) : Script α := throw (.error message)

/-- Something done with the cluster. -/
def onCluster {α : Type} (act : Cluster → Except Fault (α × Cluster)) : Script α := do
  match act (← get).cluster with
  | .ok (a, c) =>
    modify fun s => { s with cluster := c }
    return a
  | .error f => throw (.fault f)

/-- A result that has to be there. -/
def expect {ε α : Type} (message : ε → String) : Except ε α → Script α
  | .ok a => return a
  | .error e => fail (message e)

def call (site : ReplicaId) (request : Request) : Script Response := do
  expect CallError.message (← onCluster (·.call site request))

def transferWithin (tid : Tid) (txn : Transaction) : Script Response := do
  expect CallError.message
    (← expect UnroutableError.message (← onCluster (·.transferWithin tid txn)))

def transferAcross (tid : Tid) (txn : Transaction) : Script (TransferReport CallResult) := do
  expect UnroutableError.message (← onCluster (·.transferAcross tid txn))

/-- One transfer, and what became of it. -/
def transfer (tid : Tid) (txn : Transaction) : Script Unit := do
  let cluster := (← get).cluster
  let sender ← expect UnroutableError.message (cluster.shardOf txn.sender)
  let receiver ← expect UnroutableError.message (cluster.shardOf txn.receiver)
  if sender = receiver then
    say (Wire.encode (← transferWithin tid txn)).pretty
  else
    let report ← transferAcross tid txn
    say ("decision: " ++ report.decision.text)
    for (shard, reason) in report.votes.rejections do
      say ("  " ++ shard.text ++ " voted NO: " ++ reason.message)
    for replica in Cluster.unacknowledged report do
      say ("  " ++ replica.text ++ " did not acknowledge the decision")

/-- The log that a server has published. -/
def showLog (site : ReplicaId) (server : Server) : Script Unit :=
  say (site.text ++ " (" ++ server.published.shard.text ++ "):\n" ++
    (Wire.encode server.published.applied).pretty)

/-- Transfers across two shards, of which the first cannot be paid; one within a shard, first with
the replica cut off and then connected again; and one within the other shard. -/
def demoBetween (here there : ShardId) : Script Unit := do
  let routing := (← get).cluster.routing
  match routing.firstAccounts here 1, routing.firstAccounts there 1, routing.group here with
  | payer :: _, remote :: _, isolated :: _ =>
    let report ← transferAcross ⟨1⟩ ⟨payer, remote, 1000000⟩
    say ("tid 1: " ++ report.decision.text)
    let report ← transferAcross ⟨2⟩ ⟨payer, remote, 5⟩
    say ("tid 2: " ++ report.decision.text)
    let _ ← call isolated (.disconnect (routing.replicas.filter (· ≠ isolated)))
    let inside : Request := .transfer ⟨3⟩ ⟨⟨payer.number + 1⟩, payer, 1⟩
    say ("tid 3 (isolated): " ++ (← call isolated inside).fieldText)
    let _ ← call isolated (.reconnect [])
    say ("tid 3 (healed): " ++ (← call isolated inside).fieldText)
    let response ← transferWithin ⟨4⟩ ⟨remote, ⟨remote.number + 1⟩, 2⟩
    say ("tid 4: " ++ response.fieldText)
    for (site, server) in (← get).cluster.servers.toList do
      showLog site server
  | _, _, _ => fail "shard owns no accounts"

def demo : Script Unit := do
  match (← get).cluster.routing.shards with
  | [] => fail "cluster has no shards"
  | [_] => fail "the demo needs at least two shards"
  | here :: there :: _ => demoBetween here there

def ofTask : Task → Script Unit
  | .demo => demo
  | .transfer tid txn => transfer tid txn

/-- Runs a script on a fresh cluster. -/
def report (script : Script Unit) (c : Cluster) : Report :=
  match (script.run.run { cluster := c } : Except Setback Unit × Session) with
  | (.ok (), s) => { exitCode := 0, output := s.printed }
  | (.error (.error message), s) =>
    { exitCode := 1, output := s.printed, complaint := "Error: " ++ message }
  | (.error (.fault f), s) => { exitCode := 101, output := s.printed, complaint := f.message }

end Script

/-- The configuration of an invocation: that of the file if one is named, with another layout if one
is asked for. -/
def Invocation.config (i : Invocation) (file : String → Except FileError String) :
    Except ConfigError ClusterConfig := do
  let c ←
    match i.configPath with
    | none => pure {}
    | some path => ClusterConfig.loadFile file path
  let c := c.withLayout (i.shards.getD c.shards) (i.replicas.getD c.replicasPerShard)
  c.validate
  return c

def Invocation.run (i : Invocation) (file : String → Except FileError String) : Report :=
  match i.config file with
  | .error e => { exitCode := 1, complaint := "Error: " ++ e.message }
  | .ok config =>
    match Cluster.start config with
    | .error f => { exitCode := 101, complaint := f.message }
    | .ok (.error (.config e)) => { exitCode := 1, complaint := "Error: " ++ e.message }
    | .ok (.error (.routing e)) =>
      { exitCode := 1, complaint := "Error: invalid topology: " ++ e.message }
    | .ok (.ok c) => Script.report (.ofTask i.task) c

def usageLine : String := "Usage: " ++ programName ++ " [OPTIONS] <COMMAND>"

/-- Carries out what the arguments ask for; `file` tells what a file holds. -/
def run (args : List String) (file : String → Except FileError String) : Report :=
  match Wish.ofArguments args with
  | .misuse => { exitCode := 2, complaint := usageLine }
  | .print text => { exitCode := 0, output := text }
  | .run i => i.run file

end ReplicatedLedger.CommandLine
