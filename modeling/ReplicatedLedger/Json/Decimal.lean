import ReplicatedLedger.Json.Basic

/-!
JSON numbers as floating-point numbers.
-/

namespace ReplicatedLedger.Json

/-- A number without its sign, as a whole number and a power of ten. -/
structure Scientific where
  digits : Nat
  exponent : Int
  deriving DecidableEq, Repr

/-- The exponent after the letter that introduces it, or none at all. -/
def exponentValue : List Char → Int
  | _ :: '-' :: ds => -(Numeral.value 10 ds : Int)
  | _ :: '+' :: ds => Numeral.value 10 ds
  | _ :: ds => Numeral.value 10 ds
  | [] => 0

def Scientific.read (cs : List Char) : Scientific :=
  let whole := cs.takeWhile Char.isDigit
  match cs.dropWhile Char.isDigit with
  | '.' :: rest =>
    let fraction := rest.takeWhile Char.isDigit
    ⟨Numeral.value 10 (whole ++ fraction),
      exponentValue (rest.dropWhile Char.isDigit) - fraction.length⟩
  | rest => ⟨Numeral.value 10 whole, exponentValue rest⟩

/-- The nearest floating-point number. -/
def Scientific.toFloat (s : Scientific) : Float :=
  Float.ofScientific s.digits (s.exponent < 0) s.exponent.natAbs

def float? : Json → Option Float
  | .natural n => some (Float.ofNat n)
  | .number lexeme =>
    match lexeme.toList with
    | '-' :: cs => some (-(Scientific.read cs).toFloat)
    | cs => some (Scientific.read cs).toFloat
  | _ => none

end ReplicatedLedger.Json
