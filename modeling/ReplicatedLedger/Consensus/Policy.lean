import ReplicatedLedger.Duration

/-!
How persistently a replica proposes, and how much it sends a replica that is behind.
-/

namespace ReplicatedLedger

structure ConsensusPolicy where
  attemptTimeout : Duration := .ofMilliseconds 200
  maxAttempts : UInt32 := 5
  retryBackoff : Duration := .ofMilliseconds 15
  catchUpBatch : Nat := 256
  deriving DecidableEq, Repr, Inhabited

namespace ConsensusPolicy

/-- A proposal is allowed at least one attempt. -/
def withMaxAttempts (p : ConsensusPolicy) (attempts : UInt32) : ConsensusPolicy :=
  { p with maxAttempts := if attempts = 0 then 1 else attempts }

/-- The pause after a lost attempt.  It grows with the attempts made, and differs between the
members of a group so that they do not meet again. -/
def backoff (p : ConsensusPolicy) (position : Nat) (attempts : UInt32) : Except Fault Duration := do
  p.retryBackoff.scale (← sumCounts (UInt32.ofNat position) attempts)

end ConsensusPolicy

end ReplicatedLedger
