import ReplicatedLedger.Config.Wire
import ReplicatedLedger.Toml.Document

/-!
Configurations written as TOML documents.  Keys that name no setting are passed over, and a section
may also be an array of its settings in order.
-/

namespace ReplicatedLedger

namespace Toml

def Value.word? : Value → Option Word
  | .integer n => if 0 ≤ n then some (UInt64.ofNat n.toNat) else none
  | _ => none

def Value.count? : Value → Option UInt32
  | .integer n =>
    if 0 ≤ n && n < UInt32.size then some (UInt32.ofNat n.toNat) else none
  | _ => none

/-- As many items as there are names; those after the end of the list are missing. -/
def positional (names : List String) (items : List Value) : List (Option Value) :=
  (List.range names.length).map fun i => items[i]?

/-- The fields of a section.  A date counts as a section of other fields. -/
def Value.section? (names : List String) : Value → Option (List (Option Value))
  | .table _ m => some (names.map (Members.find? m))
  | .array items => some (positional names items)
  | .tables items => some (positional names (items.map (.table .header)))
  | .date _ => some (names.map fun _ => none)
  | _ => none

end Toml

def ConsensusSettings.ofToml? (v : Toml.Value) : Option ConsensusSettings :=
  (v.section? fieldNames).bind (ofFields Toml.Value.word? Toml.Value.count?)

def NetworkSettings.ofToml? (v : Toml.Value) : Option NetworkSettings :=
  (v.section? fieldNames).bind (ofFields Toml.Value.word?)

namespace ClusterConfig

def ofMembers? (m : Toml.Members) : Option ClusterConfig :=
  ofFields Toml.Value.word? ConsensusSettings.ofToml? NetworkSettings.ofToml?
    (fieldNames.map (Toml.Members.find? m))

/-- Reads a document and checks the configuration. -/
def load (text : String) : Except ConfigError ClusterConfig :=
  match (Toml.parse? text).bind ofMembers? with
  | none => .error .malformed
  | some c => do
    c.validate
    return c

/-- Reads the document in a file; `file` tells what a file holds. -/
def loadFile (file : String → Except FileError String) (path : String) :
    Except ConfigError ClusterConfig :=
  match file path with
  | .ok text => load text
  | .error reason => .error (.unreadable path reason)

end ClusterConfig

end ReplicatedLedger
