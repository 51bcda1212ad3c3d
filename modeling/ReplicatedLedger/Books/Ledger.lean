import ReplicatedLedger.Identifier

/-!
Balances of the accounts of one shard.
-/

namespace ReplicatedLedger

structure Ledger where
  balances : SortedMap AccountId Amount := ∅
  deriving DecidableEq, Inhabited

namespace Ledger

/-- The ledger in which each of `accounts` holds `balance`. -/
def opening (accounts : List AccountId) (balance : Amount) : Ledger :=
  ⟨accounts.foldr (fun a m => m.insert a balance) ∅⟩

def balance? (l : Ledger) (a : AccountId) : Option Amount := l.balances.get? a

/-- An account that is not held counts as empty. -/
def balance (l : Ledger) (a : AccountId) : Amount := (l.balance? a).getD 0

def total (l : Ledger) : Except Fault Amount := Word.total l.balances.values

/-- Takes `amount` from an account, or tells the balance that does not cover it. -/
def debit (l : Ledger) (a : AccountId) (amount : Amount) : Except Amount Ledger :=
  let balance := l.balance a
  if amount ≤ balance then .ok ⟨l.balances.insert a (balance - amount)⟩ else .error balance

/-- Adds `amount` to an account, or tells the balance that has no room for it. -/
def credit (l : Ledger) (a : AccountId) (amount : Amount) : Except Amount Ledger :=
  let balance := l.balance a
  match Word.sum? balance amount with
  | some sum => .ok ⟨l.balances.insert a sum⟩
  | none => .error balance

/-- Adds `amount` to an account if there is room for it. -/
def deposit (l : Ledger) (a : AccountId) (amount : Amount) : Ledger :=
  match l.credit a amount with
  | .ok credited => credited
  | .error _ => l

/-- The accounts that do not hold `balance`, with what they hold. -/
def differingFrom (l : Ledger) (balance : Amount) : List (AccountId × Amount) :=
  l.balances.toList.filter (·.2 ≠ balance)

end Ledger

end ReplicatedLedger
