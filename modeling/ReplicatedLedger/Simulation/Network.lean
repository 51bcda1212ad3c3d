import ReplicatedLedger.Duration
import ReplicatedLedger.Random

/-!
Links of a simulated network: how long a message takes, and whether it arrives at all.
-/

namespace ReplicatedLedger

/-- The whole number nearest to a quotient, and of two the even one. -/
def roundToEven (numerator denominator : Nat) : Nat :=
  let whole := numerator / denominator
  let rest := 2 * (numerator % denominator)
  if rest < denominator || (rest = denominator && whole % 2 = 0) then whole else whole + 1

namespace Duration

/-- A span in seconds, to double precision. -/
def seconds (d : Duration) : Float :=
  Float.ofNat (d.nanoseconds / 1000000000) + Float.ofNat (d.nanoseconds % 1000000000) / 1000000000

/-- The nearest span to a number of seconds that is not negative. -/
def nearest (seconds : Float) : Duration :=
  let bits := seconds.toBits.toNat
  let fraction := bits % Nat.pow 2 52
  let exponent := bits / Nat.pow 2 52 % Nat.pow 2 11
  -- The number is `significand * 2 ^ (exponent - 1075)`.
  let (significand, exponent) :=
    if exponent = 0 then (fraction, 1) else (fraction + Nat.pow 2 52, exponent)
  let scaled := significand * 1000000000
  if 1075 ≤ exponent then ⟨scaled * Nat.pow 2 (exponent - 1075)⟩
  else ⟨roundToEven scaled (Nat.pow 2 (1075 - exponent))⟩

end Duration

/-- A number in double precision, by its bits. -/
structure Double where
  bits : Word
  deriving DecidableEq, Repr

namespace Double

def ofFloat (x : Float) : Double := ⟨x.toBits⟩

def toFloat (d : Double) : Float := .ofBits d.bits

/-- The bits of positive numbers are in the order of the numbers, with infinity as the last one. -/
def isPositive (d : Double) : Bool := 0 < d.bits && d.bits ≤ 0x7ff0000000000000

/-- Whether a number lies between 0 and 1, and is neither. -/
def isFraction (d : Double) : Bool := d.isPositive && d.bits < 0x3ff0000000000000

end Double

structure Network where
  latency : Duration := .ofMicroseconds 2000
  /-- The latency varies by up to this fraction either way, a fifth unless it is given. -/
  jitter : Double := ⟨0x3fc999999999999a⟩
  /-- The probability that a message is lost. -/
  loss : Double := ⟨0⟩

namespace Network

/-- A probability lies between 0 and 1. -/
def withLoss (n : Network) (loss : Float) : Network :=
  { n with loss := .ofFloat (if loss < 0 then 0 else if loss > 1 then 1 else loss) }

open ReplicatedLedger.Random (Generator)

/-- Whether an event of the given probability happens.  Nothing is drawn for a certain one. -/
def happens (probability : Double) (g : Generator) : Bool × Generator :=
  if probability.isFraction then
    let (w, g) := g.draw
    (w < (Float.scaleB probability.toFloat 64).toUInt64, g)
  else (probability.isPositive, g)

/-- The largest number that a draw of 52 bits stands for. -/
def largestDraw : Float := 1 - Float.scaleB 1 (-52)

/-- Lowers a scale until the largest draw stays within the bound.  Rounding exceeds it by a few
units in the last place at most. -/
def fitScale (low high : Float) : Nat → Float → Float
  | 0, scale => scale
  | n + 1, scale =>
    if scale * largestDraw + low > high then fitScale low high n (Float.ofBits (scale.toBits - 1))
    else scale

/-- A number drawn evenly between `-bound` and `bound`. -/
def drawSpread (bound : Float) (g : Generator) : Float × Generator :=
  let low := -bound
  let scale := fitScale low bound 64 ((bound - low) / largestDraw)
  let (w, g) := g.draw
  (Float.scaleB (w >>> 12).toFloat (-52) * scale + low, g)

def jittered (n : Network) (g : Generator) : Duration × Generator :=
  if n.jitter.isPositive then
    let (spread, g) := drawSpread n.jitter.toFloat g
    let factor := 1 + spread
    (.nearest ((if factor > 0 then factor else 0) * n.latency.seconds), g)
  else (n.latency, g)

/-- The time that a message takes, or nothing if it is lost. -/
def delay (n : Network) (g : Generator) : Option Duration × Generator :=
  match happens n.loss g with
  | (true, g) => (none, g)
  | (false, g) =>
    let (d, g) := n.jittered g
    (some d, g)

end Network

end ReplicatedLedger
