import ReplicatedLedger.Config.Basic
import ReplicatedLedger.Wire

/-!
The written form of configurations: a section for each group of settings.  A setting that is left
out has its default.
-/

namespace ReplicatedLedger

/-- The value of a setting, read when it is given. -/
def setting? {α β : Type} (read : α → Option β) (default : β) : Option α → Option β
  | some a => read a
  | none => some default

namespace ConsensusSettings

def fieldNames : List String := ["attempt_timeout_ms", "max_attempts", "retry_backoff_ms"]

/-- Settings from their fields in order, given how words and counts are read. -/
def ofFields {α : Type} (word : α → Option Word) (count : α → Option UInt32) :
    List (Option α) → Option ConsensusSettings
  | [timeout, attempts, backoff] => do
    let default : ConsensusSettings := {}
    return {
      attemptTimeout := ← setting? word default.attemptTimeout timeout
      maxAttempts := ← setting? count default.maxAttempts attempts
      retryBackoff := ← setting? word default.retryBackoff backoff }
  | _ => none

instance : Wire ConsensusSettings where
  encode s := .record
    [("attempt_timeout_ms", Wire.encode s.attemptTimeout),
      ("max_attempts", Wire.encode s.maxAttempts),
      ("retry_backoff_ms", Wire.encode s.retryBackoff)]
  decode j := (j.sectionFields? fieldNames).bind (ofFields Wire.decode Wire.decode)

end ConsensusSettings

namespace NetworkSettings

def fieldNames : List String := ["link_latency_ms", "channel_capacity", "request_timeout_ms"]

def ofFields {α : Type} (word : α → Option Word) : List (Option α) → Option NetworkSettings
  | [latency, capacity, timeout] => do
    let default : NetworkSettings := {}
    return {
      linkLatency := ← setting? word default.linkLatency latency
      inboxCapacity := ← setting? word default.inboxCapacity capacity
      requestTimeout := ← setting? word default.requestTimeout timeout }
  | _ => none

instance : Wire NetworkSettings where
  encode s := .record
    [("link_latency_ms", Wire.encode s.linkLatency),
      ("channel_capacity", Wire.encode s.inboxCapacity),
      ("request_timeout_ms", Wire.encode s.requestTimeout)]
  decode j := (j.sectionFields? fieldNames).bind (ofFields Wire.decode)

end NetworkSettings

namespace ClusterConfig

def fieldNames : List String :=
  ["num_shards", "replicas_per_shard", "accounts_per_shard", "initial_balance", "consensus",
    "network"]

def ofFields {α : Type} (word : α → Option Word) (consensus : α → Option ConsensusSettings)
    (network : α → Option NetworkSettings) : List (Option α) → Option ClusterConfig
  | [shards, replicas, accounts, balance, consensusSection, networkSection] => do
    let default : ClusterConfig := {}
    return {
      shards := ← setting? word default.shards shards
      replicasPerShard := ← setting? word default.replicasPerShard replicas
      accountsPerShard := ← setting? word default.accountsPerShard accounts
      initialBalance := ← setting? word default.initialBalance balance
      consensus := ← setting? consensus default.consensus consensusSection
      network := ← setting? network default.network networkSection }
  | _ => none

instance : Wire ClusterConfig where
  encode c := .record
    [("num_shards", Wire.encode c.shards),
      ("replicas_per_shard", Wire.encode c.replicasPerShard),
      ("accounts_per_shard", Wire.encode c.accountsPerShard),
      ("initial_balance", Wire.encode c.initialBalance),
      ("consensus", Wire.encode c.consensus), ("network", Wire.encode c.network)]
  decode j := (j.sectionFields? fieldNames).bind (ofFields Wire.decode Wire.decode Wire.decode)

end ClusterConfig

end ReplicatedLedger
