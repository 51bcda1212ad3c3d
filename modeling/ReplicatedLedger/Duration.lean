import ReplicatedLedger.SortedMap
import ReplicatedLedger.Word

/-!
Spans of time, exact to the nanosecond.
-/

namespace ReplicatedLedger

structure Duration where
  nanoseconds : Nat
  deriving DecidableEq, Repr, Inhabited

namespace Duration

open Std

instance : Ord Duration := ⟨compareOn nanoseconds⟩
instance : TransOrd Duration := inferInstanceAs (TransCmp (compareOn nanoseconds))
instance : LawfulEqOrd Duration := lawfulEqCmp_compareOn fun | ⟨_⟩, ⟨_⟩, rfl => rfl

instance : LE Duration := ⟨fun a b => a.nanoseconds ≤ b.nanoseconds⟩
instance (a b : Duration) : Decidable (a ≤ b) :=
  inferInstanceAs (Decidable (a.nanoseconds ≤ b.nanoseconds))
instance : Max Duration := ⟨fun a b => if a ≤ b then b else a⟩

instance : Add Duration := ⟨fun a b => ⟨a.nanoseconds + b.nanoseconds⟩⟩

def zero : Duration := ⟨0⟩

def ofMicroseconds (n : Nat) : Duration := ⟨n * 1000⟩

def ofMilliseconds (n : Nat) : Duration := ⟨n * 1000000⟩

def ofSeconds (n : Nat) : Duration := ⟨n * 1000000000⟩

/-- Whole milliseconds, kept to a 64-bit word. -/
def milliseconds (d : Duration) : Word := UInt64.ofNat (d.nanoseconds / 1000000)

/-- Whole seconds of a span fit in a 64-bit word. -/
def scale (d : Duration) (k : UInt32) : Except Fault Duration :=
  let n := d.nanoseconds * k.toNat
  if n / 1000000000 < UInt64.size then .ok ⟨n⟩ else .error .duration

/-- A whole part, and the digits after the point that are left when trailing zeros are dropped. -/
private def decimal (n unit places : Nat) : String :=
  let digits := (toString (n % unit)).toList
  let padded := List.replicate (places - digits.length) '0' ++ digits
  let kept := (padded.reverse.dropWhile (· = '0')).reverse
  toString (n / unit) ++ if kept.isEmpty then "" else String.ofList ('.' :: kept)

/-- A span in the largest of seconds, milliseconds, microseconds and nanoseconds that it reaches. -/
def text (d : Duration) : String :=
  let n := d.nanoseconds
  if n ≥ 1000000000 then decimal n 1000000000 9 ++ "s"
  else if n ≥ 1000000 then decimal n 1000000 6 ++ "ms"
  else if n ≥ 1000 then decimal n 1000 3 ++ "µs"
  else toString n ++ "ns"

end Duration

end ReplicatedLedger
