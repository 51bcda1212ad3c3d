import ReplicatedLedger.Ballot

/-!
Values written as a name with their fields, the way audit trails and the console show them.
-/

namespace ReplicatedLedger

namespace FieldText

/-- A name and one unnamed value. -/
def wrapped (name value : String) : String := name ++ "(" ++ value ++ ")"

/-- A name and its named fields. -/
def named (name : String) (fields : List (String × String)) : String :=
  name ++ " \x7b " ++ String.intercalate ", " (fields.map fun f => f.1 ++ ": " ++ f.2) ++ " \x7d"

end FieldText

open FieldText

def AccountId.fieldText (a : AccountId) : String := wrapped "AccountId" (toString a.number)
def ShardId.fieldText (s : ShardId) : String := wrapped "ShardId" (toString s.number)
def ReplicaId.fieldText (r : ReplicaId) : String := wrapped "ReplicaId" (toString r.number)
def Tid.fieldText (t : Tid) : String := wrapped "Tid" (toString t.number)

def Ballot.fieldText (b : Ballot) : String :=
  named "Ballot" [("round", toString b.round), ("replica", b.replica.fieldText)]

end ReplicatedLedger
