/-!
Arithmetic on machine words that reports a result out of range instead of wrapping.  Ballot rounds,
slots, amounts and the numbers that things are told apart by are 64-bit words, attempt counts 32-bit
words.
-/

namespace ReplicatedLedger

/-- Arithmetic that left its range.  A replica that meets a fault stops. -/
inductive Fault where
  | sum
  | product
  | duration
  deriving DecidableEq, Repr

def Fault.message : Fault → String
  | .sum => "attempt to add with overflow"
  | .product => "attempt to multiply with overflow"
  | .duration => "overflow when multiplying duration by scalar"

/-- Equality of results is decided case by case. -/
instance decidableEqExcept {ε α : Type} [DecidableEq ε] [DecidableEq α] : DecidableEq (Except ε α)
  | .ok a, .ok b => decidable_of_iff (a = b) (by simp)
  | .error d, .error e => decidable_of_iff (d = e) (by simp)
  | .ok _, .error _ => .isFalse (by simp)
  | .error _, .ok _ => .isFalse (by simp)

abbrev Word := UInt64

namespace Word

/-- The sum of two words, when it is a word. -/
def sum? (a b : Word) : Option Word :=
  if a.toNat + b.toNat < UInt64.size then some (a + b) else none

def sum (a b : Word) : Except Fault Word :=
  match sum? a b with
  | some c => .ok c
  | none => .error .sum

def product (a b : Word) : Except Fault Word :=
  if a.toNat * b.toNat < UInt64.size then .ok (a * b) else .error .product

/-- The sum of a list, added from the left. -/
def total (words : List Word) : Except Fault Word :=
  words.foldlM sum 0

/-- Addition that stops at the largest word. -/
def saturatingSum (a b : Word) : Word :=
  (sum? a b).getD (UInt64.ofNat (UInt64.size - 1))

/-- Subtraction that stops at zero. -/
def saturatingSub (a b : Word) : Word :=
  if b ≤ a then a - b else 0

theorem sum?_eq_some_iff {a b c : Word} :
    sum? a b = some c ↔ c.toNat = a.toNat + b.toNat := by
  unfold sum?
  split
  · next h =>
    rw [Option.some.injEq, ← UInt64.toNat_inj, UInt64.toNat_add, Nat.mod_eq_of_lt h]
    exact eq_comm
  · next h =>
    have := c.toNat_lt_size
    constructor
    · intro h'; cases h'
    · intro h'; omega

theorem sum?_eq_none_iff {a b : Word} :
    sum? a b = none ↔ UInt64.size ≤ a.toNat + b.toNat := by
  unfold sum?
  split <;> simp <;> omega

theorem sum_eq_ok_iff {a b c : Word} : sum a b = .ok c ↔ c.toNat = a.toNat + b.toNat := by
  rw [← sum?_eq_some_iff]
  unfold sum
  split <;> simp_all

theorem sum_one_eq_ok_iff {a b : Word} : sum a 1 = .ok b ↔ b.toNat = a.toNat + 1 :=
  sum_eq_ok_iff

theorem lt_of_sum_one {a b : Word} (h : sum a 1 = .ok b) : a < b :=
  UInt64.lt_iff_toNat_lt.2 (Nat.lt_of_lt_of_eq (Nat.lt_succ_self _) (sum_one_eq_ok_iff.1 h).symm)

theorem toNat_saturatingSub (a b : Word) : (saturatingSub a b).toNat = a.toNat - b.toNat := by
  unfold saturatingSub
  split
  · next h => exact UInt64.toNat_sub_of_le _ _ h
  · next h =>
    have : a.toNat < b.toNat := UInt64.lt_iff_toNat_lt.1 (UInt64.not_le.1 h)
    simp
    omega

end Word

/-- The sum of two 32-bit words, when it is one. -/
def sumCounts (a b : UInt32) : Except Fault UInt32 :=
  if a.toNat + b.toNat < UInt32.size then .ok (a + b) else .error .sum

end ReplicatedLedger
