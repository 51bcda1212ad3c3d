import ReplicatedLedger.Numeral
import ReplicatedLedger.Toml.Basic

/-!
Strings, keys and blanks of TOML documents.  A reader takes what it reads off the front of the text
and gives the rest.
-/

namespace ReplicatedLedger.Toml

abbrev Reader (α : Type) := List Char → Option (α × List Char)

/-! ### Blanks -/

def isBlank (c : Char) : Bool := c = ' ' || c = '\t'

/-- Characters that may stand in comments and strings: no control characters but the tab. -/
def isTextChar (c : Char) : Bool := c = '\t' || (' ' ≤ c && c ≠ '\x7f')

def skipBlanks (cs : List Char) : List Char := cs.dropWhile isBlank

/-- Skips blanks, line ends and comments. -/
def skipLines (inComment : Bool) : List Char → List Char
  | '\n' :: rest => skipLines false rest
  | '\r' :: '\n' :: rest => skipLines false rest
  | c :: rest =>
    if inComment then
      if isTextChar c then skipLines true rest else c :: rest
    else if isBlank c then skipLines false rest
    else if c = '#' then skipLines true rest
    else c :: rest
  | [] => []

/-- Skips blanks and line ends. -/
def skipBreaks : List Char → List Char
  | ' ' :: rest | '\t' :: rest | '\n' :: rest => skipBreaks rest
  | '\r' :: '\n' :: rest => skipBreaks rest
  | cs => cs

/-- What follows the end of a line, before which only blanks and a comment may stand. -/
def lineEnd? (cs : List Char) : Option (List Char) :=
  let rest :=
    match skipBlanks cs with
    | '#' :: comment => comment.dropWhile isTextChar
    | rest => rest
  match rest with
  | [] => some []
  | '\n' :: rest => some rest
  | '\r' :: '\n' :: rest => some rest
  | _ => none

/-! ### Strings -/

structure StringStyle where
  quote : Char
  hasEscapes : Bool
  isMultiline : Bool

/-- The character with a code point written in hexadecimal. -/
def codePoint? (digits : List Char) : Option Char :=
  if digits.all (Numeral.isDigit 16) then
    let n := Numeral.value 16 digits
    if n.isValidChar then some (Char.ofNat n) else none
  else none

def escaped? : Char → Option Char
  | 'b' => some (Char.ofNat 8)
  | 't' => some '\t'
  | 'n' => some '\n'
  | 'f' => some (Char.ofNat 12)
  | 'r' => some '\r'
  | '"' => some '"'
  | '\\' => some '\\'
  | _ => none

/-- What stands after a backslash. -/
def escape : Reader Char
  | 'u' :: rest =>
    if rest.length < 4 then none else (codePoint? (rest.take 4)).map (·, rest.drop 4)
  | 'U' :: rest =>
    if rest.length < 8 then none else (codePoint? (rest.take 8)).map (·, rest.drop 8)
  | c :: rest => (escaped? c).map (·, rest)
  | [] => none

/-- The next piece of a string's content.  In a string of several lines, a backslash at the end of a
line removes the break and all blanks and breaks after it. -/
def piece (style : StringStyle) : Reader (List Char)
  | '\\' :: rest =>
    if style.hasEscapes then
      match escape rest with
      | some (c, rest) => some ([c], rest)
      | none =>
        if style.isMultiline then
          match skipBlanks rest with
          | '\n' :: rest => some ([], skipBreaks rest)
          | '\r' :: '\n' :: rest => some ([], skipBreaks rest)
          | _ => none
        else none
    else some (['\\'], rest)
  | '\n' :: rest => if style.isMultiline then some (['\n'], rest) else none
  | '\r' :: '\n' :: rest => if style.isMultiline then some (['\n'], rest) else none
  | c :: rest => if isTextChar c then some ([c], rest) else none
  | [] => none

/-- The end of a string: one quote, or three with up to two that belong to the content. -/
def closing? (style : StringStyle) (cs : List Char) : Option (List Char × List Char) :=
  let quotes := (cs.takeWhile (· = style.quote)).length
  if style.isMultiline then
    if quotes < 3 then none
    else
      let taken := min quotes 5
      some (List.replicate (taken - 3) style.quote, cs.drop taken)
  else if quotes = 0 then none
  else some ([], cs.drop 1)

/-- The content of a string from an inside position on, made of at most `limit` pieces. -/
def content (style : StringStyle) : Nat → Reader (List Char)
  | 0, _ => none
  | limit + 1, cs =>
    match closing? style cs with
    | some done => some done
    | none => do
      let (chars, rest) ← piece style cs
      let (more, rest) ← content style limit rest
      return (chars ++ more, rest)

def quoted (style : StringStyle) (cs : List Char) : Option (String × List Char) :=
  (content style (cs.length + 1) cs).map fun p => (String.ofList p.1, p.2)

/-- A line break right after the opening quotes is no part of the string. -/
def dropFirstBreak : List Char → List Char
  | '\n' :: rest => rest
  | '\r' :: '\n' :: rest => rest
  | cs => cs

/-- Any of the four kinds of strings. -/
def string : Reader String
  | '"' :: '"' :: '"' :: rest => quoted ⟨'"', true, true⟩ (dropFirstBreak rest)
  | '\'' :: '\'' :: '\'' :: rest => quoted ⟨'\'', false, true⟩ (dropFirstBreak rest)
  | '"' :: rest => quoted ⟨'"', true, false⟩ rest
  | '\'' :: rest => quoted ⟨'\'', false, false⟩ rest
  | _ => none

/-! ### Keys -/

def isBareKeyChar (c : Char) : Bool := c.isAlphanum || c = '-' || c = '_'

/-- One part of a key. -/
def keyPart : Reader String
  | '"' :: rest => quoted ⟨'"', true, false⟩ rest
  | '\'' :: rest => quoted ⟨'\'', false, false⟩ rest
  | cs =>
    match cs.takeWhile isBareKeyChar with
    | [] => none
    | name => some (String.ofList name, cs.dropWhile isBareKeyChar)

/-- A key of at most `limit` parts, with the blanks around it. -/
def keyUpTo : Nat → Reader Key
  | 0, _ => none
  | limit + 1, cs => do
    let (name, rest) ← keyPart (skipBlanks cs)
    match skipBlanks rest with
    | '.' :: rest =>
      let (key, rest) ← keyUpTo limit rest
      return (⟨name :: key.parents, key.name⟩, rest)
    | rest => return (⟨[], name⟩, rest)

/-- Keys have at most this many parts, and values nest at most this deep. -/
def depthLimit : Nat := 79

def key : Reader Key := keyUpTo depthLimit

end ReplicatedLedger.Toml
