import ReplicatedLedger.SortedMap
import ReplicatedLedger.Word

/-!
Names of the things in a cluster: accounts, shards, replicas, transactions and log slots, each a
64-bit word of its own type.
-/

namespace ReplicatedLedger

open Std

structure AccountId where
  number : Word
  deriving DecidableEq, Repr, Inhabited

structure ShardId where
  number : Word
  deriving DecidableEq, Repr, Inhabited

structure ReplicaId where
  number : Word
  deriving DecidableEq, Repr, Inhabited

/-- A transaction id, chosen by the client. -/
structure Tid where
  number : Word
  deriving DecidableEq, Repr, Inhabited

/-- A position in a shard's replicated log. -/
structure Slot where
  index : Word
  deriving DecidableEq, Repr, Inhabited

/-- Amounts and balances are whole and never negative. -/
abbrev Amount := Word

instance : Ord AccountId := ⟨compareOn AccountId.number⟩
instance : Ord ShardId := ⟨compareOn ShardId.number⟩
instance : Ord ReplicaId := ⟨compareOn ReplicaId.number⟩
instance : Ord Tid := ⟨compareOn Tid.number⟩
instance : Ord Slot := ⟨compareOn Slot.index⟩

instance : TransOrd AccountId := inferInstanceAs (TransCmp (compareOn AccountId.number))
instance : TransOrd ShardId := inferInstanceAs (TransCmp (compareOn ShardId.number))
instance : TransOrd ReplicaId := inferInstanceAs (TransCmp (compareOn ReplicaId.number))
instance : TransOrd Tid := inferInstanceAs (TransCmp (compareOn Tid.number))
instance : TransOrd Slot := inferInstanceAs (TransCmp (compareOn Slot.index))

instance : LawfulEqOrd AccountId := lawfulEqCmp_compareOn fun | ⟨_⟩, ⟨_⟩, rfl => rfl
instance : LawfulEqOrd ShardId := lawfulEqCmp_compareOn fun | ⟨_⟩, ⟨_⟩, rfl => rfl
instance : LawfulEqOrd ReplicaId := lawfulEqCmp_compareOn fun | ⟨_⟩, ⟨_⟩, rfl => rfl
instance : LawfulEqOrd Tid := lawfulEqCmp_compareOn fun | ⟨_⟩, ⟨_⟩, rfl => rfl
instance : LawfulEqOrd Slot := lawfulEqCmp_compareOn fun | ⟨_⟩, ⟨_⟩, rfl => rfl

namespace AccountId

instance : LE AccountId := ⟨fun a b => a.number ≤ b.number⟩
instance : LT AccountId := ⟨fun a b => a.number < b.number⟩
instance (a b : AccountId) : Decidable (a ≤ b) := inferInstanceAs (Decidable (a.number ≤ b.number))
instance (a b : AccountId) : Decidable (a < b) := inferInstanceAs (Decidable (a.number < b.number))

def text (a : AccountId) : String := toString a.number

end AccountId

def ShardId.text (s : ShardId) : String := "Shard(" ++ toString s.number ++ ")"

def ReplicaId.text (r : ReplicaId) : String := "S" ++ toString r.number

def Tid.text (t : Tid) : String := toString t.number

namespace Slot

instance : LE Slot := ⟨fun a b => a.index ≤ b.index⟩
instance : LT Slot := ⟨fun a b => a.index < b.index⟩
instance (a b : Slot) : Decidable (a ≤ b) := inferInstanceAs (Decidable (a.index ≤ b.index))
instance (a b : Slot) : Decidable (a < b) := inferInstanceAs (Decidable (a.index < b.index))

def first : Slot := ⟨0⟩

/-- The slot after this one; the last slot has none. -/
def next (s : Slot) : Except Fault Slot := Slot.mk <$> Word.sum s.index 1

def text (s : Slot) : String := "Slot(" ++ toString s.index ++ ")"

end Slot

end ReplicatedLedger
