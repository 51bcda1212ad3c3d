import ReplicatedLedger.Books.Participant
import ReplicatedLedger.Json.Basic
import ReplicatedLedger.Message
import ReplicatedLedger.Request

/-!
The wire form of the ledger's data.  An id is a bare number, a structure an object with its fields
in order, and an alternative its name, with the content as the one member of an object.  Reading is
strict about numbers and repeated fields, and lenient about fields it does not know.
-/

namespace ReplicatedLedger

class Wire (α : Type) where
  encode : α → Json
  decode : Json → Option α

namespace Wire

/-- The text that is sent. -/
def write {α : Type} [Wire α] (a : α) : String := (encode a).compact

def read? (α : Type) [Wire α] (s : String) : Option α :=
  match Json.parse? s with
  | some j => decode j
  | none => none

/-- A field that must be present. -/
def required {α : Type} [Wire α] : Option Json → Option α
  | some j => decode j
  | none => none

/-- A field that may be left out. -/
def omittable {α : Type} [Wire (Option α)] : Option Json → Option (Option α)
  | some j => decode j
  | none => some none

/-- The content of an alternative that has none. -/
def bare : Option Json → Option Unit
  | none | some .null => some ()
  | some _ => none

/-- The alternative `tag` with a content. -/
def tagged (tag : String) (content : Json) : Json := .record [(tag, content)]

/-! ### Numbers, lists and options -/

def decodeBelow (limit : Nat) : Json → Option Nat
  | .natural n => if n < limit then some n else none
  | _ => none

instance : Wire Word where
  encode n := .natural n.toNat
  decode j := (decodeBelow UInt64.size j).map UInt64.ofNat

instance : Wire UInt32 where
  encode n := .natural n.toNat
  decode j := (decodeBelow UInt32.size j).map UInt32.ofNat

instance {α : Type} [Wire α] : Wire (List α) where
  encode l := .array (l.map encode)
  decode
    | .array items => items.mapM decode
    | _ => none

instance {α : Type} [Wire α] : Wire (Option α) where
  encode
    | some a => encode a
    | none => .null
  decode
    | .null => some none
    | j => some <$> decode j

instance {α β : Type} [Wire α] [Wire β] : Wire (α × β) where
  encode p := .array [encode p.1, encode p.2]
  decode
    | .array [a, b] => do return (← decode a, ← decode b)
    | _ => none

/-! ### Identifiers -/

instance : Wire AccountId := ⟨fun a => encode a.number, fun j => AccountId.mk <$> decode j⟩
instance : Wire ShardId := ⟨fun s => encode s.number, fun j => ShardId.mk <$> decode j⟩
instance : Wire ReplicaId := ⟨fun r => encode r.number, fun j => ReplicaId.mk <$> decode j⟩
instance : Wire Tid := ⟨fun t => encode t.number, fun j => Tid.mk <$> decode j⟩
instance : Wire Slot := ⟨fun s => encode s.index, fun j => Slot.mk <$> decode j⟩

/-! ### Structures and alternatives -/

instance : Wire Ballot where
  encode b := .record [("round", encode b.round), ("replica", encode b.replica)]
  decode j :=
    match j.fields? ["round", "replica"] with
    | some [round, replica] => do return ⟨← required round, ← required replica⟩
    | _ => none

instance : Wire Transaction where
  encode t := .record
    [("sender", encode t.sender), ("receiver", encode t.receiver), ("amount", encode t.amount)]
  decode j :=
    match j.fields? ["sender", "receiver", "amount"] with
    | some [sender, receiver, amount] => do
      return ⟨← required sender, ← required receiver, ← required amount⟩
    | _ => none

/-- The fields of an alternative about a transaction with its accounts and amount. -/
def encodeOrder (tid : Tid) (txn : Transaction) : Json :=
  .record [("tid", encode tid), ("txn", encode txn)]

def decodeOrder (content : Option Json) : Option (Tid × Transaction) :=
  match content.bind (·.fields? ["tid", "txn"]) with
  | some [tid, txn] => do return (← required tid, ← required txn)
  | _ => none

/-- The field of an alternative that has one only. -/
def encodeField {α : Type} [Wire α] (name : String) (a : α) : Json := .record [(name, encode a)]

def decodeField {α : Type} [Wire α] (name : String) (content : Option Json) : Option α :=
  match content.bind (·.fields? [name]) with
  | some [a] => required a
  | _ => none

instance : Wire Command where
  encode
    | .transfer tid txn => tagged "Transfer" (encodeOrder tid txn)
    | .prepare tid txn => tagged "Prepare" (encodeOrder tid txn)
    | .commit tid => tagged "Commit" (encodeField "tid" tid)
    | .abort tid => tagged "Abort" (encodeField "tid" tid)
  decode j :=
    match j.variant? with
    | some ("Transfer", content) => (fun p => .transfer p.1 p.2) <$> decodeOrder content
    | some ("Prepare", content) => (fun p => .prepare p.1 p.2) <$> decodeOrder content
    | some ("Commit", content) => .commit <$> decodeField "tid" content
    | some ("Abort", content) => .abort <$> decodeField "tid" content
    | _ => none

instance : Wire LogEntry where
  encode e := .record
    [("slot", encode e.slot), ("ballot", encode e.ballot), ("command", encode e.command)]
  decode j :=
    match j.fields? ["slot", "ballot", "command"] with
    | some [slot, ballot, command] => do
      return ⟨← required slot, ← required ballot, ← required command⟩
    | _ => none

def encodeShortfall (account : AccountId) (available requested : Amount) : Json :=
  .record
    [("account", encode account), ("available", encode available), ("requested", encode requested)]

def decodeShortfall (content : Option Json) : Option (AccountId × Amount × Amount) :=
  match content.bind (·.fields? ["account", "available", "requested"]) with
  | some [account, available, requested] => do
    return (← required account, ← required available, ← required requested)
  | _ => none

def encodeMisrouting (account : AccountId) (shard : ShardId) : Json :=
  .record [("account", encode account), ("shard", encode shard)]

def decodeMisrouting (content : Option Json) : Option (AccountId × ShardId) :=
  match content.bind (·.fields? ["account", "shard"]) with
  | some [account, shard] => do return (← required account, ← required shard)
  | _ => none

instance : Wire Rejection where
  encode
    | .insufficientFunds account available requested =>
      tagged "InsufficientFunds" (encodeShortfall account available requested)
    | .unknownTransaction => .string "UnknownTransaction"
    | .alreadyDecided => .string "AlreadyDecided"
    | .transactionConflict => .string "TransactionConflict"
    | .invalidShardRouting account shard =>
      tagged "InvalidShardRouting" (encodeMisrouting account shard)
    | .balanceOverflow account => tagged "BalanceOverflow" (encodeField "account" account)
  decode j :=
    match j.variant? with
    | some ("InsufficientFunds", content) =>
      (fun p => .insufficientFunds p.1 p.2.1 p.2.2) <$> decodeShortfall content
    | some ("UnknownTransaction", content) => (fun _ => .unknownTransaction) <$> bare content
    | some ("AlreadyDecided", content) => (fun _ => .alreadyDecided) <$> bare content
    | some ("TransactionConflict", content) => (fun _ => .transactionConflict) <$> bare content
    | some ("InvalidShardRouting", content) =>
      (fun p => .invalidShardRouting p.1 p.2) <$> decodeMisrouting content
    | some ("BalanceOverflow", content) => .balanceOverflow <$> decodeField "account" content
    | _ => none

instance : Wire Outcome where
  encode
    | .transferred => .string "Transferred"
    | .prepared => .string "Prepared"
    | .committed => .string "Committed"
    | .aborted => .string "Aborted"
    | .duplicate => .string "Duplicate"
    | .rejected reason => tagged "Rejected" (encode reason)
  decode j :=
    match j.variant? with
    | some ("Transferred", content) => (fun _ => .transferred) <$> bare content
    | some ("Prepared", content) => (fun _ => .prepared) <$> bare content
    | some ("Committed", content) => (fun _ => .committed) <$> bare content
    | some ("Aborted", content) => (fun _ => .aborted) <$> bare content
    | some ("Duplicate", content) => (fun _ => .duplicate) <$> bare content
    | some ("Rejected", content) => .rejected <$> required content
    | _ => none

instance : Wire AppliedEntry where
  encode a := .record [("entry", encode a.entry), ("outcome", encode a.outcome)]
  decode j :=
    match j.fields? ["entry", "outcome"] with
    | some [entry, outcome] => do return ⟨← required entry, ← required outcome⟩
    | _ => none

instance : Wire LedgerError where
  encode
    | .insufficientFunds account available requested =>
      tagged "InsufficientFunds" (encodeShortfall account available requested)
    | .unknownTransaction tid => tagged "UnknownTransaction" (encode tid)
    | .quorumUnavailable attempts => tagged "QuorumUnavailable" (encodeField "attempts" attempts)
    | .staleBallot promised => tagged "StaleBallot" (encodeField "promised" promised)
    | .invalidShardRouting account shard =>
      tagged "InvalidShardRouting" (encodeMisrouting account shard)
    | .alreadyDecided tid => tagged "AlreadyDecided" (encode tid)
    | .transactionConflict tid => tagged "TransactionConflict" (encode tid)
    | .balanceOverflow account => tagged "BalanceOverflow" (encodeField "account" account)
  decode j :=
    match j.variant? with
    | some ("InsufficientFunds", content) =>
      (fun p => .insufficientFunds p.1 p.2.1 p.2.2) <$> decodeShortfall content
    | some ("UnknownTransaction", content) => .unknownTransaction <$> required content
    | some ("QuorumUnavailable", content) =>
      .quorumUnavailable <$> decodeField "attempts" content
    | some ("StaleBallot", content) => .staleBallot <$> decodeField "promised" content
    | some ("InvalidShardRouting", content) =>
      (fun p => .invalidShardRouting p.1 p.2) <$> decodeMisrouting content
    | some ("AlreadyDecided", content) => .alreadyDecided <$> required content
    | some ("TransactionConflict", content) => .transactionConflict <$> required content
    | some ("BalanceOverflow", content) => .balanceOverflow <$> decodeField "account" content
    | _ => none

/-! ### Requests and answers -/

instance : Wire Request where
  encode
    | .transfer tid txn => tagged "Transfer" (encodeOrder tid txn)
    | .prepare tid txn => tagged "TpcPrepare" (encodeOrder tid txn)
    | .commit tid => tagged "TpcCommit" (encodeField "tid" tid)
    | .abort tid => tagged "TpcAbort" (encodeField "tid" tid)
    | .disconnect peers => tagged "Disconnect" (encodeField "peers" peers)
    | .reconnect peers => tagged "Reconnect" (encodeField "peers" peers)
    | .logs => .string "Logs"
    | .balance account => tagged "Balance" (encodeField "account" account)
  decode j :=
    match j.variant? with
    | some ("Transfer", content) => (fun p => .transfer p.1 p.2) <$> decodeOrder content
    | some ("TpcPrepare", content) => (fun p => .prepare p.1 p.2) <$> decodeOrder content
    | some ("TpcCommit", content) => .commit <$> decodeField "tid" content
    | some ("TpcAbort", content) => .abort <$> decodeField "tid" content
    | some ("Disconnect", content) => .disconnect <$> decodeField "peers" content
    | some ("Reconnect", content) => .reconnect <$> decodeField "peers" content
    | some ("Logs", content) => (fun _ => .logs) <$> bare content
    | some ("Balance", content) => .balance <$> decodeField "account" content
    | _ => none

instance : Wire Vote where
  encode
    | .yes => .string "Yes"
    | .no reason => tagged "No" (encode reason)
  decode j :=
    match j.variant? with
    | some ("Yes", content) => (fun _ => .yes) <$> bare content
    | some ("No", content) => .no <$> required content
    | _ => none

instance : Wire Response where
  encode
    | .ack slot => tagged "Ack" (encodeField "slot" slot)
    | .vote vote => tagged "Vote" (encode vote)
    | .logs entries => tagged "Logs" (encode entries)
    | .balance amount => tagged "Balance" (encode amount)
    | .error reason => tagged "Error" (encode reason)
  decode j :=
    match j.variant? with
    | some ("Ack", content) =>
      match content.bind (·.fields? ["slot"]) with
      | some [slot] => .ack <$> omittable slot
      | _ => none
    | some ("Vote", content) => .vote <$> required content
    | some ("Logs", content) => .logs <$> required content
    | some ("Balance", content) => .balance <$> required content
    | some ("Error", content) => .error <$> required content
    | _ => none

end Wire

/-! ### Messages -/

namespace Message

open Wire

/-- The contents of a message, without its kind. -/
def encodeBody : Message → Json
  | .prepare ballot slot => .record [("ballot", encode ballot), ("slot", encode slot)]
  | .promise ballot slot earlier =>
    .record [("ballot", encode ballot), ("slot", encode slot), ("accepted", encode earlier)]
  | .accept ballot slot command =>
    .record [("ballot", encode ballot), ("slot", encode slot), ("command", encode command)]
  | .accepted ballot slot => .record [("ballot", encode ballot), ("slot", encode slot)]
  | .nack ballot slot promised =>
    .record [("ballot", encode ballot), ("slot", encode slot), ("promised", encode promised)]
  | .chosen entry => encodeField "entry" entry
  | .catchUpRequest start => encodeField "from_slot" start
  | .catchUpResponse entries => encodeField "entries" entries

/-- Contents read as a message of a given kind. -/
def decodeBody (j : Json) : Kind → Option Message
  | .prepare =>
    match j.fields? ["ballot", "slot"] with
    | some [ballot, slot] => do return .prepare (← required ballot) (← required slot)
    | _ => none
  | .promise =>
    match j.fields? ["ballot", "slot", "accepted"] with
    | some [ballot, slot, earlier] => do
      return .promise (← required ballot) (← required slot) (← omittable earlier)
    | _ => none
  | .accept =>
    match j.fields? ["ballot", "slot", "command"] with
    | some [ballot, slot, command] => do
      return .accept (← required ballot) (← required slot) (← required command)
    | _ => none
  | .accepted =>
    match j.fields? ["ballot", "slot"] with
    | some [ballot, slot] => do return .accepted (← required ballot) (← required slot)
    | _ => none
  | .nack =>
    match j.fields? ["ballot", "slot", "promised"] with
    | some [ballot, slot, promised] => do
      return .nack (← required ballot) (← required slot) (← required promised)
    | _ => none
  | .chosen => .chosen <$> decodeField "entry" (some j)
  | .catchUpRequest => .catchUpRequest <$> decodeField "from_slot" (some j)
  | .catchUpResponse => .catchUpResponse <$> decodeField "entries" (some j)

def Kind.ofName? (name : String) : Option Kind := Kind.all.find? (·.name = name)

instance : Wire Message where
  encode m := tagged m.name m.encodeBody
  decode j :=
    match j.variant? with
    | some (name, some body) => (Kind.ofName? name).bind (decodeBody body)
    | _ => none

end Message

/-- The listed form of a participant record; records are not sent. -/
def ParticipantRecord.encode (r : ParticipantRecord) : Json :=
  .record
    [("tid", Wire.encode r.tid), ("txn", Wire.encode r.txn), ("state", .string r.state.name),
      ("reserved_amount", Wire.encode r.reserved)]

end ReplicatedLedger
