import ReplicatedLedger.Toml.Scalar

/-!
Values, statements and whole documents.
-/

namespace ReplicatedLedger.Toml

/-! ### Values -/

/-- The items of an array up to its closing bracket, at most `limit` of them. -/
def items (value : Reader Value) : Nat → Reader (List Value)
  | 0, _ => none
  | limit + 1, cs =>
    match skipLines false cs with
    | ']' :: rest => some ([], rest)
    | cs => do
      let (v, rest) ← value cs
      match skipLines false rest with
      | ',' :: rest =>
        let (vs, rest) ← items value limit rest
        return (v :: vs, rest)
      | ']' :: rest => return ([v], rest)
      | _ => none

/-- A key, an equals sign and a value. -/
def assignment (value : Reader Value) : Reader (Key × Value) := fun cs => do
  let (k, rest) ← key cs
  match rest with
  | '=' :: rest =>
    let (v, rest) ← value (skipBlanks rest)
    return ((k, v), rest)
  | _ => none

/-- The members of an inline table up to its closing brace, at most `limit` of them, added to those
before. -/
def inlineMembers (value : Reader Value) (m : Members) : Nat → Reader Members
  | 0, _ => none
  | limit + 1, cs => do
    let ((k, v), rest) ← assignment value cs
    let m ← m.assign k v .inline
    match skipBlanks rest with
    | ',' :: rest => inlineMembers value m limit rest
    | '\x7d' :: rest => return (m, rest)
    | _ => none

def inlineTable (value : Reader Value) : Reader Members := fun cs =>
  match skipBlanks cs with
  | '\x7d' :: rest => some ([], rest)
  | cs => inlineMembers value [] cs.length cs

/-- A value in which arrays and inline tables nest at most `depth` deep. -/
def valueUpTo : Nat → Reader Value
  | _, '"' :: rest => (string ('"' :: rest)).map fun p => (.string p.1, p.2)
  | _, '\'' :: rest => (string ('\'' :: rest)).map fun p => (.string p.1, p.2)
  | 0, cs => scalar cs
  | depth + 1, '[' :: rest =>
    (items (valueUpTo depth) (rest.length + 1) rest).map fun p => (.array p.1, p.2)
  | depth + 1, '\x7b' :: rest =>
    (inlineTable (valueUpTo depth) rest).map fun p => (.table .inline p.1, p.2)
  | _ + 1, cs => scalar cs

def value : Reader Value := valueUpTo depthLimit

/-! ### Statements -/

def statement : Reader Statement
  | '[' :: '[' :: rest => do
    match ← key rest with
    | (k, ']' :: ']' :: rest) => return (.entry k, rest)
    | _ => none
  | '[' :: rest => do
    match ← key rest with
    | (k, ']' :: rest) => return (.table k, rest)
    | _ => none
  | cs => (assignment value cs).map fun p => (.assign p.1.1 p.1.2, p.2)

/-- At most `limit` statements, each with a line end after it. -/
def statements : Nat → List Char → Option (List Statement)
  | 0, _ => none
  | limit + 1, cs =>
    match skipLines false cs with
    | [] => some []
    | cs => do
      let (s, rest) ← statement cs
      let more ← statements limit (← lineEnd? rest)
      return s :: more

/-- A byte order mark may stand before a document. -/
def dropMark : List Char → List Char
  | '\ufeff' :: rest => rest
  | cs => cs

/-- The top-level table of a document. -/
def parse? (text : String) : Option Members := do
  let cs := dropMark text.toList
  carryOut [] [] (← statements (cs.length + 1) cs)

end ReplicatedLedger.Toml
