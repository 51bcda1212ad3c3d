import ReplicatedLedger.Files
import ReplicatedLedger.Replica

/-!
The configuration of a cluster: how many shards, replicas and accounts it has, and how patient its
replicas and clients are.  Spans of time are given in milliseconds, and every setting has a default.
-/

namespace ReplicatedLedger

structure ConsensusSettings where
  attemptTimeout : Word := 200
  maxAttempts : UInt32 := 5
  retryBackoff : Word := 15
  deriving DecidableEq, Repr, Inhabited

structure NetworkSettings where
  linkLatency : Word := 0
  /-- How many events a replica's inbox holds. -/
  inboxCapacity : Word := 4096
  requestTimeout : Word := 5000
  deriving DecidableEq, Repr, Inhabited

structure ClusterConfig where
  shards : Word := 2
  replicasPerShard : Word := 3
  accountsPerShard : Word := 1000
  initialBalance : Amount := 10
  consensus : ConsensusSettings := {}
  network : NetworkSettings := {}
  deriving DecidableEq, Repr, Inhabited

/-- A setting that must not be zero. -/
inductive PositiveSetting where
  | shards | replicasPerShard | accountsPerShard | inboxCapacity
  deriving DecidableEq, Repr

def PositiveSetting.name : PositiveSetting → String
  | shards => "num_shards"
  | replicasPerShard => "replicas_per_shard"
  | accountsPerShard => "accounts_per_shard"
  | inboxCapacity => "network.channel_capacity"

inductive ConfigError where
  | unreadable (path : String) (reason : FileError)
  /-- The text is no document, or a setting has a value of another kind. -/
  | malformed
  | zero (setting : PositiveSetting)
  deriving DecidableEq, Repr

def ConfigError.message : ConfigError → String
  | unreadable path reason => "failed to read " ++ path ++ ": " ++ reason.message
  | malformed => "invalid TOML"
  | zero setting => "invalid configuration: " ++ setting.name ++ " must be at least 1"

namespace ClusterConfig

/-- Refuses a configuration in which a cluster would have no shards, replicas, accounts or room for
messages. -/
def validate (c : ClusterConfig) : Except ConfigError Unit :=
  if c.shards = 0 then .error (.zero .shards)
  else if c.replicasPerShard = 0 then .error (.zero .replicasPerShard)
  else if c.accountsPerShard = 0 then .error (.zero .accountsPerShard)
  else if c.network.inboxCapacity = 0 then .error (.zero .inboxCapacity)
  else .ok ()

def withLayout (c : ClusterConfig) (shards replicasPerShard : Word) : ClusterConfig :=
  { c with shards := shards, replicasPerShard := replicasPerShard }

def withAttemptTimeout (c : ClusterConfig) (d : Duration) : ClusterConfig :=
  { c with consensus := { c.consensus with attemptTimeout := d.milliseconds } }

def withRequestTimeout (c : ClusterConfig) (d : Duration) : ClusterConfig :=
  { c with network := { c.network with requestTimeout := d.milliseconds } }

def routing (c : ClusterConfig) : Except Fault RoutingTable :=
  RoutingTable.uniform c.shards c.replicasPerShard c.accountsPerShard

def consensusPolicy (c : ClusterConfig) : ConsensusPolicy :=
  let policy : ConsensusPolicy :=
    { attemptTimeout := .ofMilliseconds c.consensus.attemptTimeout.toNat
      retryBackoff := .ofMilliseconds c.consensus.retryBackoff.toNat }
  policy.withMaxAttempts c.consensus.maxAttempts

def replicaPolicy (c : ClusterConfig) : ReplicaPolicy := ⟨c.initialBalance, c.consensusPolicy⟩

def linkLatency (c : ClusterConfig) : Duration := .ofMilliseconds c.network.linkLatency.toNat

def requestTimeout (c : ClusterConfig) : Duration := .ofMilliseconds c.network.requestTimeout.toNat

end ClusterConfig

end ReplicatedLedger
