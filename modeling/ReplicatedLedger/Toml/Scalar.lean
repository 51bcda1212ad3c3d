import ReplicatedLedger.Toml.Text

/-!
Numbers, dates and truth values.  Each is one run of characters without blanks, but for the blank
that may stand between a date and a time.
-/

namespace ReplicatedLedger.Toml

/-- Whether all characters are digits, or single underscores between two digits. -/
def isGrouped (isDigit : Char → Bool) (afterDigit : Bool) : List Char → Bool
  | [] => afterDigit
  | '_' :: rest => afterDigit && isGrouped isDigit false rest
  | c :: rest => isDigit c && isGrouped isDigit true rest

/-- The value of a whole number of a given base. -/
def natural? (base : Nat) (cs : List Char) : Option Nat :=
  if isGrouped (Numeral.isDigit base) false cs then
    some (Numeral.value base (cs.filter (· ≠ '_')))
  else none

/-- A sign, if there is one, and what follows it. -/
def sign : List Char → Option Char × List Char
  | '+' :: rest => (some '+', rest)
  | '-' :: rest => (some '-', rest)
  | cs => (none, cs)

/-- A decimal number without sign, in which no zero stands before another digit. -/
def decimal? : List Char → Option Nat
  | ['0'] => some 0
  | '0' :: _ => none
  | cs => natural? 10 cs

/-! ### Integers -/

/-- Integers have 64 bits. -/
def inRange? (n : Int) : Option Int :=
  if Int64.minValue.toInt ≤ n && n ≤ Int64.maxValue.toInt then some n else none

def integer? (cs : List Char) : Option Int :=
  match cs with
  | '0' :: 'x' :: ds => (natural? 16 ds).bind fun n => inRange? n
  | '0' :: 'o' :: ds => (natural? 8 ds).bind fun n => inRange? n
  | '0' :: 'b' :: ds => (natural? 2 ds).bind fun n => inRange? n
  | _ =>
    let (s, ds) := sign cs
    (decimal? ds).bind fun n => inRange? (if s = some '-' then -(n : Int) else n)

/-! ### Floating-point numbers -/

def isDigitOrUnderscore (c : Char) : Bool := c.isDigit || c = '_'

/-- An exponent with its letter, or none at all. -/
def exponent? : List Char → Option Int
  | [] => some 0
  | c :: rest =>
    if c = 'e' || c = 'E' then
      let (s, ds) := sign rest
      (natural? 10 ds).map fun n => if s = some '-' then -(n : Int) else n
    else none

/-- Whether a decimal number of `length` digits is rounded to infinity in double precision. -/
def isInfinite (length digits : Nat) (exponent : Int) : Bool :=
  let limit := Nat.pow 2 1024 - Nat.pow 2 970
  if digits = 0 then false
  else if 0 ≤ exponent then 309 ≤ exponent || limit ≤ digits * Nat.pow 10 exponent.toNat
  else if length < exponent.natAbs then false
  else limit * Nat.pow 10 exponent.natAbs ≤ digits

/-- Whether a text is a number with a fraction or an exponent, and not too large a one. -/
def isFloat (cs : List Char) : Bool :=
  let (s, unsigned) := sign cs
  if unsigned = ['i', 'n', 'f'] || unsigned = ['n', 'a', 'n'] then true
  else
    let whole := unsigned.takeWhile isDigitOrUnderscore
    let rest := unsigned.dropWhile isDigitOrUnderscore
    let (fraction, tail) :=
      match rest with
      | '.' :: rest =>
        (some (rest.takeWhile isDigitOrUnderscore), rest.dropWhile isDigitOrUnderscore)
      | rest => (none, rest)
    let digits := (whole ++ fraction.getD []).filter (· ≠ '_')
    let places := ((fraction.getD []).filter (· ≠ '_')).length
    match exponent? tail with
    | none => false
    | some e =>
      (decimal? whole).isSome && fraction.all (fun ds => (natural? 10 ds).isSome) && !rest.isEmpty &&
        (s = some '-' || !isInfinite digits.length (Numeral.value 10 digits) (e - places))

/-! ### Dates and times -/

/-- A number that is written with digits alone and is no larger than `limit`. -/
def field? (limit : Nat) (digits : List Char) : Option Nat :=
  if digits.all Char.isDigit && Numeral.value 10 digits ≤ limit then
    some (Numeral.value 10 digits)
  else none

def pair? (limit : Nat) (a b : Char) : Option Nat := field? limit [a, b]

def daysInMonth (year month : Nat) : Nat :=
  if month = 2 then
    if year % 4 = 0 && (year % 100 ≠ 0 || year % 400 = 0) then 29 else 28
  else if month = 4 || month = 6 || month = 9 || month = 11 then 30
  else 31

/-- What follows a date. -/
def afterDate? : List Char → Option (List Char)
  | y :: y' :: y'' :: y''' :: '-' :: m :: m' :: '-' :: d :: d' :: rest =>
    match field? 9999 [y, y', y'', y'''], pair? 12 m m', pair? 31 d d' with
    | some year, some month, some day =>
      if 1 ≤ month && 1 ≤ day && day ≤ daysInMonth year month then some rest else none
    | _, _, _ => none
  | _ => none

/-- What follows a time of day.  A minute may have a leap second. -/
def afterTime? : List Char → Option (List Char)
  | h :: h' :: ':' :: m :: m' :: ':' :: s :: s' :: rest =>
    if (pair? 23 h h').isSome && (pair? 59 m m').isSome && (pair? 60 s s').isSome then
      match rest with
      | '.' :: rest =>
        if (rest.takeWhile Char.isDigit).isEmpty then none else some (rest.dropWhile Char.isDigit)
      | rest => some rest
    else none
  | _ => none

def isOffset : List Char → Bool
  | [] | ['Z'] | ['z'] => true
  | [s, h, h', ':', m, m'] =>
    (s = '+' || s = '-') && (pair? 23 h h').isSome && (pair? 59 m m').isSome
  | _ => false

/-- Whether a text is a date, a time, or both. -/
def isDate (cs : List Char) : Bool :=
  match afterDate? cs with
  | some [] => true
  | some (c :: rest) =>
    (c = 'T' || c = 't' || c = ' ') &&
      match afterTime? rest with
      | some rest => isOffset rest
      | none => false
  | none => afterTime? cs = some []

/-! ### Scalars -/

def isScalarChar (c : Char) : Bool :=
  c.isAlphanum || c = '+' || c = '-' || c = '.' || c = '_' || c = ':'

/-- The text of a scalar: a run of characters, and a second one if a time follows a date. -/
def scalarText (cs : List Char) : List Char × List Char :=
  let text := cs.takeWhile isScalarChar
  let rest := cs.dropWhile isScalarChar
  match afterDate? text, rest with
  | some [], ' ' :: h :: h' :: ':' :: rest =>
    let time := h :: h' :: ':' :: rest
    if (pair? 23 h h').isSome then
      (text ++ ' ' :: time.takeWhile isScalarChar, time.dropWhile isScalarChar)
    else (text, ' ' :: time)
  | _, rest => (text, rest)

def scalarValue? (text : List Char) : Option Value :=
  if text = ['t', 'r', 'u', 'e'] then some (.boolean true)
  else if text = ['f', 'a', 'l', 's', 'e'] then some (.boolean false)
  else if isDate text then some (.date (String.ofList text))
  else if isFloat text then some (.float (String.ofList text))
  else (integer? text).map .integer

def scalar : Reader Value := fun cs =>
  let (text, rest) := scalarText cs
  (scalarValue? text).map (·, rest)

end ReplicatedLedger.Toml
