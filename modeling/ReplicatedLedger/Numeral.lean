/-!
Numerals as lists of digits.
-/

namespace ReplicatedLedger.Numeral

/-- The value of a digit, hexadecimal ones included. -/
def digit? (c : Char) : Option Nat :=
  if c.isDigit then some (c.toNat - 48)
  else if 'a' ≤ c && c ≤ 'f' then some (c.toNat - 87)
  else if 'A' ≤ c && c ≤ 'F' then some (c.toNat - 55)
  else none

def isDigit (base : Nat) (c : Char) : Bool :=
  match digit? c with
  | some d => d < base
  | none => false

/-- The value of a list of digits. -/
def value (base : Nat) (ds : List Char) : Nat :=
  ds.foldl (fun n d => base * n + (digit? d).getD 0) 0

end ReplicatedLedger.Numeral
