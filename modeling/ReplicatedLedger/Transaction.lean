import ReplicatedLedger.Identifier

/-!
Transfers between two accounts, and the commands about them that a shard's replicas order in their
log.
-/

namespace ReplicatedLedger

open Std

structure Transaction where
  sender : AccountId
  receiver : AccountId
  amount : Amount
  deriving DecidableEq, Repr, Inhabited

def Transaction.text (t : Transaction) : String :=
  t.sender.text ++ " -> " ++ t.receiver.text ++ ": " ++ toString t.amount

/-- What one log entry asks of the ledger: a transfer within the shard, or one of the steps of a
transfer across shards. -/
inductive Command where
  | transfer (tid : Tid) (txn : Transaction)
  | prepare (tid : Tid) (txn : Transaction)
  | commit (tid : Tid)
  | abort (tid : Tid)
  deriving DecidableEq, Repr, Inhabited

namespace Command

def tid : Command → Tid
  | transfer tid _ | prepare tid _ | commit tid | abort tid => tid

def txn? : Command → Option Transaction
  | transfer _ txn | prepare _ txn => some txn
  | commit _ | abort _ => none

def name : Command → String
  | transfer .. => "Transfer"
  | prepare .. => "Prepare"
  | commit .. => "Commit"
  | abort .. => "Abort"

/-- Whether the command ends a transfer across shards. -/
def isDecision : Command → Bool
  | commit _ | abort _ => true
  | transfer .. | prepare .. => false

def text : Command → String
  | transfer tid txn => "Transfer(" ++ tid.text ++ ", " ++ txn.text ++ ")"
  | c => c.name ++ "(" ++ c.tid.text ++ ")"

/-! Commands are ordered by kind, transaction id, sender, receiver and amount. -/

def kind : Command → Nat
  | transfer .. => 0
  | prepare .. => 1
  | commit .. => 2
  | abort .. => 3

/-- The transaction of a command, or the zero transaction for one that has none. -/
def body (c : Command) : Transaction := c.txn?.getD ⟨⟨0⟩, ⟨0⟩, 0⟩

def compareByFields : Command → Command → Ordering :=
  compareLex (compareOn kind) (compareLex (compareOn tid)
    (compareLex (compareOn (·.body.sender)) (compareLex (compareOn (·.body.receiver))
      (compareOn (·.body.amount)))))

instance : Ord Command := ⟨compareByFields⟩

instance : TransOrd Command := inferInstanceAs (TransCmp
  (compareLex (compareOn kind) (compareLex (compareOn tid)
    (compareLex (compareOn fun c => c.body.sender) (compareLex (compareOn fun c => c.body.receiver)
      (compareOn fun c => c.body.amount))))))

theorem eq_of_fields {a b : Command} (hk : a.kind = b.kind) (ht : a.tid = b.tid)
    (hb : a.body = b.body) : a = b := by
  cases a <;> cases b <;> simp_all [kind, tid, body, txn?]

instance : LawfulEqOrd Command where
  compare_self {a} := show compareLex (compareOn kind) (compareLex (compareOn tid)
    (compareLex (compareOn fun c => c.body.sender) (compareLex (compareOn fun c => c.body.receiver)
      (compareOn fun c => c.body.amount)))) a a = .eq from ReflCmp.compare_self
  eq_of_compare {a b} h := by
    have h : (compareOn kind a b).then ((compareOn tid a b).then
        ((compareOn (·.body.sender) a b).then ((compareOn (·.body.receiver) a b).then
          (compareOn (·.body.amount) a b)))) = .eq := h
    simp only [Ordering.then_eq_eq, compareOn, Std.compare_eq_iff_eq] at h
    obtain ⟨hk, ht, hs, hr, ha⟩ := h
    refine eq_of_fields hk ht ?_
    cases ha' : a.body; cases hb' : b.body; simp_all

end Command

end ReplicatedLedger
