import ReplicatedLedger.Json.Token

/-!
JSON values, their compact and their indented form, and reading.  A value is written as its sequence
of tokens; reading assembles tokens on a stack of open arrays and objects, without recursion.
-/

namespace ReplicatedLedger

open Json in
inductive Json where
  | null
  | boolean (b : Bool)
  | natural (n : Nat)
  | number (lexeme : String)
  | text (s : Text)
  | array (items : List Json)
  | object (members : List (Text × Json))
  deriving Inhabited

namespace Json

/-- A string value. -/
def string (s : String) : Json := .text (some s)

/-- An object with the given members, in order. -/
def record (members : List (String × Json)) : Json :=
  .object (members.map fun m => (some m.1, m.2))

/-! ### Writing -/

mutual

def tokens : Json → List Token
  | .null => [.null]
  | .boolean b => [.boolean b]
  | .natural n => [.natural n]
  | .number lexeme => [.number lexeme]
  | .text s => [.text s]
  | .array [] => [.openArray, .closeArray]
  | .array (v :: rest) => .openArray :: tokens v ++ itemTokens rest ++ [.closeArray]
  | .object [] => [.openObject, .closeObject]
  | .object ((k, v) :: rest) =>
    .openObject :: .text k :: .colon :: tokens v ++ memberTokens rest ++ [.closeObject]

/-- Items after the first. -/
def itemTokens : List Json → List Token
  | [] => []
  | v :: rest => .comma :: tokens v ++ itemTokens rest

/-- Members after the first. -/
def memberTokens : List (Text × Json) → List Token
  | [] => []
  | (k, v) :: rest => .comma :: .text k :: .colon :: tokens v ++ memberTokens rest

end

def compact (j : Json) : String := String.join (j.tokens.map Token.write)

def indent (depth : Nat) : String := "\n" ++ String.ofList (List.replicate (2 * depth) ' ')

mutual

/-- The form with one item or member to a line, indented by two blanks a level. -/
def prettyAt (depth : Nat) : Json → String
  | .null => "null"
  | .boolean b => Token.write (.boolean b)
  | .natural n => toString n
  | .number lexeme => lexeme
  | .text s => Token.write (.text s)
  | .array [] => "[]"
  | .array (v :: rest) =>
    "[" ++ indent (depth + 1) ++ prettyAt (depth + 1) v ++ prettyItems (depth + 1) rest ++
      indent depth ++ "]"
  | .object [] => "\x7b\x7d"
  | .object ((k, v) :: rest) =>
    "\x7b" ++ indent (depth + 1) ++ Token.write (.text k) ++ ": " ++ prettyAt (depth + 1) v ++
      prettyMembers (depth + 1) rest ++ indent depth ++ "\x7d"

def prettyItems (depth : Nat) : List Json → String
  | [] => ""
  | v :: rest => "," ++ indent depth ++ prettyAt depth v ++ prettyItems depth rest

def prettyMembers (depth : Nat) : List (Text × Json) → String
  | [] => ""
  | (k, v) :: rest =>
    "," ++ indent depth ++ Token.write (.text k) ++ ": " ++ prettyAt depth v ++
      prettyMembers depth rest

end

def pretty (j : Json) : String := prettyAt 0 j

/-! ### Reading -/

/-- An array or object that is still open, its contents in reverse. -/
inductive Frame where
  | array (items : List Json)
  /-- `key` is the key of the member that is being read. -/
  | object (members : List (Text × Json)) (key : Text)

/-- What must come next, inside the open frames. -/
inductive Assembly where
  | value (open_ : List Frame)
  | firstItem (open_ : List Frame)
  | firstKey (open_ : List Frame)
  | key (members : List (Text × Json)) (open_ : List Frame)
  | colon (members : List (Text × Json)) (key : Text) (open_ : List Frame)
  /-- A value is complete: its frame goes on or closes, and with no frame the text ends. -/
  | complete (v : Json) (open_ : List Frame)

/-- A token where a value must come. -/
def stepValue (frames : List Frame) : Token → Option Assembly
  | .openArray => some (.firstItem frames)
  | .openObject => some (.firstKey frames)
  | .null => some (.complete .null frames)
  | .boolean b => some (.complete (.boolean b) frames)
  | .natural n => some (.complete (.natural n) frames)
  | .number lexeme => some (.complete (.number lexeme) frames)
  | .text s => some (.complete (.text s) frames)
  | _ => none

def Assembly.step : Assembly → Token → Option Assembly
  | .value frames, t => stepValue frames t
  | .firstItem frames, .closeArray => some (.complete (.array []) frames)
  | .firstItem frames, t => stepValue (.array [] :: frames) t
  | .firstKey frames, .closeObject => some (.complete (.object []) frames)
  | .firstKey frames, .text k => some (.colon [] k frames)
  | .key members frames, .text k => some (.colon members k frames)
  | .colon members k frames, .colon => some (.value (.object members k :: frames))
  | .complete v (.array items :: frames), .comma => some (.value (.array (v :: items) :: frames))
  | .complete v (.array items :: frames), .closeArray =>
    some (.complete (.array (v :: items).reverse) frames)
  | .complete v (.object members k :: frames), .comma => some (.key ((k, v) :: members) frames)
  | .complete v (.object members k :: frames), .closeObject =>
    some (.complete (.object ((k, v) :: members).reverse) frames)
  | _, _ => none

def Assembly.run : Assembly → List Token → Option Assembly
  | a, [] => some a
  | a, t :: rest =>
    match a.step t with
    | some a => a.run rest
    | none => none

def ofTokens? (tokens : List Token) : Option Json :=
  match (Assembly.value []).run tokens with
  | some (.complete v []) => some v
  | _ => none

/-- Reads a text that holds one value and blanks around it. -/
def parse? (s : String) : Option Json :=
  match lex s.toList with
  | some tokens => ofTokens? tokens
  | none => none

/-! ### Taking values apart -/

/-- The members of an object that a list of names asks for, in the order of the list.  No name may
occur twice, and other members are passed over. -/
def namedMembers? (names : List String) (members : List (Text × Json)) :
    Option (List (Option Json)) :=
  if members.any (·.1.isNone) then none
  else names.mapM fun n =>
    match members.filter (·.1 = some n) with
    | [] => some none
    | [m] => some (some m.2)
    | _ => none

/-- The fields of a structure: an object's members by name, or the items of an array that has as
many. -/
def fields? (names : List String) : Json → Option (List (Option Json))
  | .object members => namedMembers? names members
  | .array items => if items.length = names.length then some (items.map some) else none
  | _ => none

/-- The fields of a structure whose fields all have defaults: an array may leave out the last
ones. -/
def sectionFields? (names : List String) : Json → Option (List (Option Json))
  | .object members => namedMembers? names members
  | .array items =>
    if items.length ≤ names.length then
      some (items.map some ++ List.replicate (names.length - items.length) none)
    else none
  | _ => none

/-- A tag and its content: a string alone, or an object with one member. -/
def variant? : Json → Option (String × Option Json)
  | .text (some tag) => some (tag, none)
  | .object [(some tag, content)] => some (tag, some content)
  | _ => none

end Json

end ReplicatedLedger
