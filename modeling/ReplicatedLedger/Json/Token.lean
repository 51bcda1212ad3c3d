import ReplicatedLedger.Numeral

/-!
Lexical elements of JSON texts.  `lex` runs a small automaton over the characters, so it needs no
look-ahead and works in constant depth.
-/

namespace ReplicatedLedger.Json

/-- The content of a string; `none` when its escapes name half a surrogate pair, which stands for no
character. -/
abbrev Text := Option String

inductive Token where
  | openArray
  | closeArray
  | openObject
  | closeObject
  | comma
  | colon
  | null
  | boolean (b : Bool)
  /-- An integer without sign, fraction or exponent. -/
  | natural (n : Nat)
  /-- Any other number, as written. -/
  | number (lexeme : String)
  | text (s : Text)
  deriving DecidableEq, Repr

/-! ### Words: literals and numbers -/

def isBlank (c : Char) : Bool := c = ' ' || c = '\n' || c = '\r' || c = '\t'

def isWordChar (c : Char) : Bool := c.isAlphanum || c = '-' || c = '+' || c = '.'

/-- Digits that make up an integer part: no zero before another digit. -/
def isIntegerPart (cs : List Char) : Bool :=
  match cs with
  | [] => false
  | ['0'] => true
  | c :: rest => c ≠ '0' && c.isDigit && rest.all Char.isDigit

def isDigits (cs : List Char) : Bool := !cs.isEmpty && cs.all Char.isDigit

/-- An exponent with its sign, if it has one. -/
def isExponent : List Char → Bool
  | '+' :: ds | '-' :: ds => isDigits ds
  | ds => isDigits ds

/-- What may follow the integer part. -/
def isNumberTail : List Char → Bool
  | [] => true
  | '.' :: rest =>
    let fraction := rest.takeWhile Char.isDigit
    !fraction.isEmpty &&
      match rest.dropWhile Char.isDigit with
      | [] => true
      | 'e' :: e | 'E' :: e => isExponent e
      | _ => false
  | 'e' :: e | 'E' :: e => isExponent e
  | _ => false

def numberToken? (cs : List Char) : Option Token :=
  let unsigned := match cs with
    | '-' :: rest => rest
    | _ => cs
  let integer := unsigned.takeWhile Char.isDigit
  if isIntegerPart integer && isNumberTail (unsigned.dropWhile Char.isDigit) then
    if integer = cs then some (.natural (Numeral.value 10 cs)) else some (.number (String.ofList cs))
  else none

def wordToken? (cs : List Char) : Option Token :=
  if cs = ['n', 'u', 'l', 'l'] then some .null
  else if cs = ['t', 'r', 'u', 'e'] then some (.boolean true)
  else if cs = ['f', 'a', 'l', 's', 'e'] then some (.boolean false)
  else numberToken? cs

/-! ### Strings -/

def isHighSurrogate (u : Nat) : Bool := 0xD800 ≤ u && u < 0xDC00

def isLowSurrogate (u : Nat) : Bool := 0xDC00 ≤ u && u < 0xE000

/-- The characters that a sequence of code points and UTF-16 units stands for. -/
def ofUnits : List Nat → Option (List Char)
  | [] => some []
  | u :: rest =>
    if isHighSurrogate u then
      match rest with
      | [] => none
      | v :: rest =>
        if isLowSurrogate v then
          (Char.ofNat (0x10000 + (u - 0xD800) * 0x400 + (v - 0xDC00)) :: ·) <$> ofUnits rest
        else none
    else if isLowSurrogate u then none
    else (Char.ofNat u :: ·) <$> ofUnits rest

/-- The character that a one-letter escape stands for. -/
def escaped? : Char → Option Char
  | '"' => some '"'
  | '\\' => some '\\'
  | '/' => some '/'
  | 'b' => some (Char.ofNat 8)
  | 'f' => some (Char.ofNat 12)
  | 'n' => some '\n'
  | 'r' => some '\r'
  | 't' => some '\t'
  | _ => none

/-! ### The automaton -/

/-- Where the automaton stands; what has been read of an element is kept in reverse. -/
inductive LexState where
  | between
  | word (read : List Char)
  | string (read : List Nat)
  | escape (read : List Nat)
  /-- Inside a numeric escape, with the number of digits still to come. -/
  | unit (read : List Nat) (missing value : Nat)
  deriving Repr

/-- A character outside words and strings: the tokens that it completes, and the next state. -/
def stepBetween (c : Char) : Option (List Token × LexState) :=
  if isBlank c then some ([], .between)
  else
    match c with
    | '[' => some ([.openArray], .between)
    | ']' => some ([.closeArray], .between)
    | '\x7b' => some ([.openObject], .between)
    | '\x7d' => some ([.closeObject], .between)
    | ',' => some ([.comma], .between)
    | ':' => some ([.colon], .between)
    | '"' => some ([], .string [])
    | _ => if isWordChar c then some ([], .word [c]) else none

def step : LexState → Char → Option (List Token × LexState)
  | .between, c => stepBetween c
  | .word read, c =>
    if isWordChar c then some ([], .word (c :: read))
    else
      match wordToken? read.reverse, stepBetween c with
      | some w, some (tokens, s) => some (w :: tokens, s)
      | _, _ => none
  | .string read, c =>
    if c = '"' then some ([.text ((ofUnits read.reverse).map String.ofList)], .between)
    else if c = '\\' then some ([], .escape read)
    else if c.toNat < 32 then none
    else some ([], .string (c.toNat :: read))
  | .escape read, c =>
    if c = 'u' then some ([], .unit read 4 0)
    else (escaped? c).map fun e => ([], .string (e.toNat :: read))
  | .unit read missing value, c =>
    (Numeral.digit? c).map fun d =>
      let value := 16 * value + d
      if missing ≤ 1 then ([], .string (value :: read)) else ([], .unit read (missing - 1) value)

/-- Runs the automaton, with the tokens so far in reverse. -/
def lexFrom (done : List Token) : LexState → List Char → Option (List Token)
  | .between, [] => some done.reverse
  | .word read, [] => (wordToken? read.reverse).map fun w => (w :: done).reverse
  | _, [] => none
  | s, c :: rest =>
    match step s c with
    | some (tokens, s) => lexFrom (tokens.reverse ++ done) s rest
    | none => none

def lex (cs : List Char) : Option (List Token) := lexFrom [] .between cs

/-! ### Writing -/

def hexDigit (n : Nat) : Char := if n < 10 then Char.ofNat (48 + n) else Char.ofNat (87 + n)

/-- A character inside a string: control characters, the quote and the backslash are escaped. -/
def escape (c : Char) : List Char :=
  if c = '"' then ['\\', '"']
  else if c = '\\' then ['\\', '\\']
  else if c.toNat < 32 then
    match c.toNat with
    | 8 => ['\\', 'b']
    | 9 => ['\\', 't']
    | 10 => ['\\', 'n']
    | 12 => ['\\', 'f']
    | 13 => ['\\', 'r']
    | n => ['\\', 'u', '0', '0', hexDigit (n / 16), hexDigit (n % 16)]
  else [c]

def quoted (s : String) : String := String.ofList ('"' :: s.toList.flatMap escape ++ ['"'])

def Token.write : Token → String
  | openArray => "["
  | closeArray => "]"
  | openObject => "\x7b"
  | closeObject => "\x7d"
  | comma => ","
  | colon => ":"
  | null => "null"
  | boolean true => "true"
  | boolean false => "false"
  | natural n => toString n
  | number lexeme => lexeme
  | text (some s) => quoted s
  | text none => "\"\\ud800\""

end ReplicatedLedger.Json
