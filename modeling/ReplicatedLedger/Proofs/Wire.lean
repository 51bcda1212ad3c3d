import ReplicatedLedger.Config.Wire
import ReplicatedLedger.Proofs.Json.Reading

/-!
What is written is read back.  A lawful wire form undoes its own encoding and uses natural numbers
only; the laws of a structure or an alternative follow from those of its fields.
-/

namespace ReplicatedLedger

open Json (Plain)
open Wire

/-- A wire form that undoes its own encoding.  What it writes is plain: of numbers other than
naturals the parser keeps the lexeme, not the value. -/
class LawfulWire (α : Type) [Wire α] : Prop where
  plain (a : α) : (encode a).Plain
  decode_encode (a : α) : decode (encode a) = some a

namespace Wire

open LawfulWire

variable {α β : Type} [Wire α] [LawfulWire α] [Wire β] [LawfulWire β]

theorem read?_write (a : α) : read? α (write a) = some a := by
  unfold read? write
  rw [Json.parse?_compact (plain a)]
  exact decode_encode a

/-! ### Numbers, lists and options -/

/-- A number that fits is read as it is; a greater one would be refused, not cut off. -/
theorem decodeBelow_natural {limit n : Nat} (h : n < limit) :
    decodeBelow limit (.natural n) = some n :=
  if_pos h

instance : LawfulWire Word where
  plain n := Json.plain_natural n.toNat
  decode_encode n := by
    show (decodeBelow UInt64.size (.natural n.toNat)).map UInt64.ofNat = some n
    rw [decodeBelow_natural n.toNat_lt_size, Option.map_some, UInt64.ofNat_toNat]

instance : LawfulWire UInt32 where
  plain n := Json.plain_natural n.toNat
  decode_encode n := by
    show (decodeBelow UInt32.size (.natural n.toNat)).map UInt32.ofNat = some n
    rw [decodeBelow_natural n.toNat_lt_size, Option.map_some, UInt32.ofNat_toNat]

theorem mapM_decode (l : List α) : (l.map encode).mapM decode = some l := by
  induction l with
  | nil => rfl
  | cons a l ih => simp [decode_encode, ih]

instance : LawfulWire (List α) where
  plain l := Json.plain_array fun j hj => by
    obtain ⟨a, _, rfl⟩ := List.mem_map.1 hj
    exact plain a
  decode_encode := mapM_decode

/-- An option is told from its content, unless the content itself may be `null`. -/
theorem lawfulWire_option (h : ∀ a : α, encode a ≠ .null) : LawfulWire (Option α) where
  plain
    | none => Json.plain_null
    | some a => plain a
  decode_encode
    | none => rfl
    | some a => by
        have hdecode : (decode (encode a) : Option (Option α)) = some <$> decode (encode a) := by
          cases hj : encode a with
          | null => exact absurd hj (h a)
          | _ => rfl
        show (decode (encode a) : Option (Option α)) = _
        rw [hdecode, decode_encode]
        rfl

instance : LawfulWire (α × β) where
  plain p := Json.plain_array (by simp [plain])
  decode_encode p := by
    show (do return (← decode (encode p.1), ← decode (encode p.2)) : Option (α × β)) = _
    rw [decode_encode, decode_encode]
    rfl

/-! ### Fields and tags -/

theorem required_encode (a : α) : required (some (encode a)) = some a := decode_encode a

theorem map_of_eq_some {γ δ : Type} {f : γ → δ} {o : Option γ} {c : γ} (h : o = some c) :
    f <$> o = some (f c) := by
  rw [h]
  rfl

theorem plain_tagged {tag : String} {content : Json} (h : content.Plain) :
    (tagged tag content).Plain :=
  Json.plain_record (by simpa using h)

theorem plain_encodeField (name : String) (a : α) : (encodeField name a).Plain :=
  Json.plain_record (by simpa using plain a)

/-- The one field of an alternative is found under its name. -/
theorem decodeField_encodeField (name : String) (a : α) :
    decodeField name (some (encodeField name a)) = some a := by
  simp [decodeField, encodeField, Json.fields?, Json.record, Json.namedMembers?, required_encode]

/-! ### Identifiers -/

instance : LawfulWire AccountId where
  plain a := plain a.number
  decode_encode a := congrArg (Option.map AccountId.mk) (decode_encode a.number)

instance : LawfulWire ShardId where
  plain s := plain s.number
  decode_encode s := congrArg (Option.map ShardId.mk) (decode_encode s.number)

instance : LawfulWire ReplicaId where
  plain r := plain r.number
  decode_encode r := congrArg (Option.map ReplicaId.mk) (decode_encode r.number)

instance : LawfulWire Tid where
  plain t := plain t.number
  decode_encode t := congrArg (Option.map Tid.mk) (decode_encode t.number)

instance : LawfulWire Slot where
  plain s := plain s.index
  decode_encode s := congrArg (Option.map Slot.mk) (decode_encode s.index)

/-! ### Structures -/

instance : LawfulWire Ballot where
  plain b := Json.plain_record (by simp [plain])
  decode_encode b := by
    show (do return ⟨← required (some (encode b.round)), ← required (some (encode b.replica))⟩ :
      Option Ballot) = _
    simp only [required_encode]
    rfl

instance : LawfulWire Transaction where
  plain t := Json.plain_record (by simp [plain])
  decode_encode t := by
    show (do return ⟨← required (some (encode t.sender)), ← required (some (encode t.receiver)),
      ← required (some (encode t.amount))⟩ : Option Transaction) = _
    simp only [required_encode]
    rfl

/-- Transfers and prepares, as commands and as requests, have the same content. -/
theorem plain_encodeOrder (tid : Tid) (txn : Transaction) : (encodeOrder tid txn).Plain :=
  Json.plain_record (by simp [plain])

theorem decodeOrder_encodeOrder (tid : Tid) (txn : Transaction) :
    decodeOrder (some (encodeOrder tid txn)) = some (tid, txn) := by
  show (do return (← required (some (encode tid)), ← required (some (encode txn))) :
    Option (Tid × Transaction)) = _
  simp only [required_encode]
  rfl

theorem plain_encodeShortfall (account : AccountId) (available requested : Amount) :
    (encodeShortfall account available requested).Plain :=
  Json.plain_record (by simp [plain])

theorem decodeShortfall_encodeShortfall (account : AccountId) (available requested : Amount) :
    decodeShortfall (some (encodeShortfall account available requested)) =
      some (account, available, requested) := by
  show (do return (← required (some (encode account)), ← required (some (encode available)),
    ← required (some (encode requested))) : Option (AccountId × Amount × Amount)) = _
  simp only [required_encode]
  rfl

theorem plain_encodeMisrouting (account : AccountId) (shard : ShardId) :
    (encodeMisrouting account shard).Plain :=
  Json.plain_record (by simp [plain])

theorem decodeMisrouting_encodeMisrouting (account : AccountId) (shard : ShardId) :
    decodeMisrouting (some (encodeMisrouting account shard)) = some (account, shard) := by
  show (do return (← required (some (encode account)), ← required (some (encode shard))) :
    Option (AccountId × ShardId)) = _
  simp only [required_encode]
  rfl

instance : LawfulWire Command where
  plain
    | .transfer tid txn | .prepare tid txn => plain_tagged (plain_encodeOrder tid txn)
    | .commit tid | .abort tid => plain_tagged (plain_encodeField "tid" tid)
  decode_encode
    | .transfer tid txn | .prepare tid txn => map_of_eq_some (decodeOrder_encodeOrder tid txn)
    | .commit tid | .abort tid => map_of_eq_some (decodeField_encodeField "tid" tid)

instance : LawfulWire LogEntry where
  plain e := Json.plain_record (by simp [plain])
  decode_encode e := by
    show (do return ⟨← required (some (encode e.slot)), ← required (some (encode e.ballot)),
      ← required (some (encode e.command))⟩ : Option LogEntry) = _
    simp only [required_encode]
    rfl

instance : LawfulWire Rejection where
  plain
    | .insufficientFunds account available requested =>
        plain_tagged (plain_encodeShortfall account available requested)
    | .unknownTransaction | .alreadyDecided | .transactionConflict => Json.plain_string _
    | .invalidShardRouting account shard => plain_tagged (plain_encodeMisrouting account shard)
    | .balanceOverflow account => plain_tagged (plain_encodeField "account" account)
  decode_encode
    | .insufficientFunds account available requested =>
        map_of_eq_some (decodeShortfall_encodeShortfall account available requested)
    | .unknownTransaction | .alreadyDecided | .transactionConflict => rfl
    | .invalidShardRouting account shard =>
        map_of_eq_some (decodeMisrouting_encodeMisrouting account shard)
    | .balanceOverflow account => map_of_eq_some (decodeField_encodeField "account" account)

instance : LawfulWire Outcome where
  plain
    | .transferred | .prepared | .committed | .aborted | .duplicate => Json.plain_string _
    | .rejected reason => plain_tagged (plain reason)
  decode_encode
    | .transferred | .prepared | .committed | .aborted | .duplicate => rfl
    | .rejected reason => map_of_eq_some (required_encode reason)

instance : LawfulWire AppliedEntry where
  plain a := Json.plain_record (by simp [plain])
  decode_encode a := by
    show (do return ⟨← required (some (encode a.entry)), ← required (some (encode a.outcome))⟩ :
      Option AppliedEntry) = _
    simp only [required_encode]
    rfl

instance : LawfulWire LedgerError where
  plain
    | .insufficientFunds account available requested =>
        plain_tagged (plain_encodeShortfall account available requested)
    | .unknownTransaction tid | .alreadyDecided tid | .transactionConflict tid =>
        plain_tagged (plain tid)
    | .quorumUnavailable attempts => plain_tagged (plain_encodeField "attempts" attempts)
    | .staleBallot promised => plain_tagged (plain_encodeField "promised" promised)
    | .invalidShardRouting account shard => plain_tagged (plain_encodeMisrouting account shard)
    | .balanceOverflow account => plain_tagged (plain_encodeField "account" account)
  decode_encode
    | .insufficientFunds account available requested =>
        map_of_eq_some (decodeShortfall_encodeShortfall account available requested)
    | .unknownTransaction tid | .alreadyDecided tid | .transactionConflict tid =>
        map_of_eq_some (required_encode tid)
    | .quorumUnavailable attempts =>
        map_of_eq_some (decodeField_encodeField "attempts" attempts)
    | .staleBallot promised => map_of_eq_some (decodeField_encodeField "promised" promised)
    | .invalidShardRouting account shard =>
        map_of_eq_some (decodeMisrouting_encodeMisrouting account shard)
    | .balanceOverflow account => map_of_eq_some (decodeField_encodeField "account" account)

/-! ### Requests and answers -/

instance : LawfulWire Request where
  plain
    | .transfer tid txn | .prepare tid txn => plain_tagged (plain_encodeOrder tid txn)
    | .commit tid | .abort tid => plain_tagged (plain_encodeField "tid" tid)
    | .disconnect peers | .reconnect peers => plain_tagged (plain_encodeField "peers" peers)
    | .logs => Json.plain_string _
    | .balance account => plain_tagged (plain_encodeField "account" account)
  decode_encode
    | .transfer tid txn | .prepare tid txn => map_of_eq_some (decodeOrder_encodeOrder tid txn)
    | .commit tid | .abort tid => map_of_eq_some (decodeField_encodeField "tid" tid)
    | .disconnect peers | .reconnect peers =>
        map_of_eq_some (decodeField_encodeField "peers" peers)
    | .logs => rfl
    | .balance account => map_of_eq_some (decodeField_encodeField "account" account)

instance : LawfulWire Vote where
  plain
    | .yes => Json.plain_string _
    | .no reason => plain_tagged (plain reason)
  decode_encode
    | .yes => rfl
    | .no reason => map_of_eq_some (required_encode reason)

instance : LawfulWire (Option Slot) := lawfulWire_option fun _ => nofun

instance : LawfulWire Response where
  plain
    | .ack slot => plain_tagged (plain_encodeField "slot" slot)
    | .vote vote => plain_tagged (plain vote)
    | .logs entries => plain_tagged (plain entries)
    | .balance amount => plain_tagged (plain amount)
    | .error reason => plain_tagged (plain reason)
  decode_encode
    | .ack slot => map_of_eq_some (decode_encode slot)
    | .vote vote => map_of_eq_some (required_encode vote)
    | .logs entries => map_of_eq_some (required_encode entries)
    | .balance amount => map_of_eq_some (required_encode amount)
    | .error reason => map_of_eq_some (required_encode reason)

/-! ### Messages -/

instance : LawfulWire (Option (Ballot × Command)) := lawfulWire_option fun _ => nofun

theorem plain_encodeBody (m : Message) : m.encodeBody.Plain := by
  cases m with
  | chosen entry => exact plain_encodeField "entry" entry
  | catchUpRequest start => exact plain_encodeField "from_slot" start
  | catchUpResponse entries => exact plain_encodeField "entries" entries
  | _ => exact Json.plain_record (by simp [plain])

/-- The contents of a message and its kind are all of it. -/
theorem decodeBody_encodeBody (m : Message) : Message.decodeBody m.encodeBody m.kind = some m := by
  cases m with
  | prepare ballot slot =>
      show (do
        return .prepare (← required (some (encode ballot)))
          (← required (some (encode slot))) : Option Message) = _
      simp only [required_encode]
      rfl
  | promise ballot slot earlier =>
      show (do
        return .promise (← required (some (encode ballot))) (← required (some (encode slot)))
          (← decode (encode earlier)) : Option Message) = _
      simp only [required_encode, decode_encode]
      rfl
  | accept ballot slot command =>
      show (do
        return .accept (← required (some (encode ballot))) (← required (some (encode slot)))
          (← required (some (encode command))) : Option Message) = _
      simp only [required_encode]
      rfl
  | accepted ballot slot =>
      show (do
        return .accepted (← required (some (encode ballot)))
          (← required (some (encode slot))) : Option Message) = _
      simp only [required_encode]
      rfl
  | nack ballot slot promised =>
      show (do
        return .nack (← required (some (encode ballot))) (← required (some (encode slot)))
          (← required (some (encode promised))) : Option Message) = _
      simp only [required_encode]
      rfl
  | chosen entry => exact map_of_eq_some (decodeField_encodeField "entry" entry)
  | catchUpRequest start => exact map_of_eq_some (decodeField_encodeField "from_slot" start)
  | catchUpResponse entries => exact map_of_eq_some (decodeField_encodeField "entries" entries)

/-- No two kinds of messages share a name. -/
theorem ofName?_name (k : Message.Kind) : Message.Kind.ofName? k.name = some k := by
  cases k <;> decide

instance : LawfulWire Message where
  plain m := plain_tagged (plain_encodeBody m)
  decode_encode m := by
    show (Message.Kind.ofName? m.kind.name).bind (Message.decodeBody m.encodeBody) = some m
    rw [ofName?_name, Option.bind_some, decodeBody_encodeBody]

/-! ### Configurations -/

/-- A setting that is written is never taken from the defaults. -/
theorem setting?_encode (a default : α) :
    setting? decode default (some (encode a)) = some a :=
  decode_encode a

instance : LawfulWire ConsensusSettings where
  plain s := Json.plain_record (by simp [plain])
  decode_encode s := by
    show ConsensusSettings.ofFields decode decode [some (encode s.attemptTimeout),
      some (encode s.maxAttempts), some (encode s.retryBackoff)] = _
    simp only [ConsensusSettings.ofFields, setting?_encode]
    rfl

instance : LawfulWire NetworkSettings where
  plain s := Json.plain_record (by simp [plain])
  decode_encode s := by
    show NetworkSettings.ofFields decode [some (encode s.linkLatency),
      some (encode s.inboxCapacity), some (encode s.requestTimeout)] = _
    simp only [NetworkSettings.ofFields, setting?_encode]
    rfl

instance : LawfulWire ClusterConfig where
  plain c := Json.plain_record (by simp [plain])
  decode_encode c := by
    show ClusterConfig.ofFields decode decode decode [some (encode c.shards),
      some (encode c.replicasPerShard), some (encode c.accountsPerShard),
      some (encode c.initialBalance), some (encode c.consensus), some (encode c.network)] = _
    simp only [ClusterConfig.ofFields, setting?_encode]
    rfl

/-! ### The wire format -/

/-- Every value of the type is read back from what is written for it. -/
def RoundTrips (α : Type) [Wire α] : Prop := ∀ a : α, read? α (write a) = some a

/-- Ids, ballots and commands, log entries with their outcomes, errors, requests, answers, messages
and configurations are read back as they were; so is a message that travels under its kind alone. -/
theorem wire_format_round_trips :
    (RoundTrips Word ∧ RoundTrips AccountId ∧ RoundTrips ShardId ∧ RoundTrips ReplicaId ∧
      RoundTrips Tid ∧ RoundTrips Slot) ∧
    (RoundTrips Ballot ∧ RoundTrips Transaction ∧ RoundTrips Command ∧ RoundTrips LogEntry ∧
      RoundTrips Rejection ∧ RoundTrips Outcome ∧ RoundTrips AppliedEntry ∧
      RoundTrips LedgerError) ∧
    (RoundTrips Request ∧ RoundTrips Vote ∧ RoundTrips Response) ∧
    (RoundTrips Message ∧ ∀ m : Message,
      (Json.parse? m.encodeBody.compact).bind (Message.decodeBody · m.kind) = some m) ∧
    (RoundTrips ConsensusSettings ∧ RoundTrips NetworkSettings ∧ RoundTrips ClusterConfig) := by
  refine ⟨⟨?_, ?_, ?_, ?_, ?_, ?_⟩, ⟨?_, ?_, ?_, ?_, ?_, ?_, ?_, ?_⟩, ⟨?_, ?_, ?_⟩, ⟨?_, ?_⟩,
    ⟨?_, ?_, ?_⟩⟩
  case refine_19 =>
    intro m
    rw [Json.parse?_compact (plain_encodeBody m), Option.bind_some, decodeBody_encodeBody]
  all_goals exact read?_write

end Wire

end ReplicatedLedger
