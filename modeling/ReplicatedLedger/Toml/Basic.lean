/-!
TOML values, and how a document's tables grow as it is read.  A table that has been defined may not
be defined again, and where a table came from decides what may still be added to it.
-/

namespace ReplicatedLedger.Toml

inductive Origin where
  /-- Defined by a header of its own. -/
  | header
  /-- Named on the way to another table's header. -/
  | path
  /-- Made by dotted keys. -/
  | dotted
  /-- Written out between braces, and complete. -/
  | inline
  deriving DecidableEq, Repr

inductive Value where
  | string (s : String)
  | integer (n : Int)
  | float (lexeme : String)
  | boolean (b : Bool)
  | date (lexeme : String)
  | array (items : List Value)
  | table (origin : Origin) (members : List (String × Value))
  /-- An array of tables, each with a header of its own. -/
  | tables (items : List (List (String × Value)))

abbrev Members := List (String × Value)

/-- A key with the tables that lead to it. -/
structure Key where
  parents : List String
  name : String
  deriving DecidableEq, Repr

def Key.path (k : Key) : List String := k.parents ++ [k.name]

namespace Members

def find? (m : Members) (name : String) : Option Value :=
  (List.find? (·.1 = name) m).map (·.2)

/-- Sets a member, in its place or as the last one. -/
def put (name : String) (v : Value) : Members → Members
  | [] => [(name, v)]
  | (n, w) :: rest => if n = name then (n, v) :: rest else (n, w) :: put name v rest

/-- Changes the table that a path leads to, making those tables on the way that are missing.  A path
through an array of tables goes on in the last of them.  Dotted keys do not reach into tables that
have a header, and nothing reaches into inline tables. -/
def within (isDotted : Bool) (change : Origin → Members → Option Members) :
    List String → Origin → Members → Option Members
  | [], origin, m => change origin m
  | name :: path, _, m =>
    match m.find? name with
    | none =>
      let origin : Origin := if isDotted then .dotted else .path
      (within isDotted change path origin []).map fun inner => m.put name (.table origin inner)
    | some (.table origin inner) =>
      if origin = .inline || (isDotted && origin = .header) then none
      else (within isDotted change path origin inner).map fun inner =>
        m.put name (.table origin inner)
    | some (.tables items) =>
      match items.getLast? with
      | some last => (within isDotted change path .header last).map fun last =>
          m.put name (.tables (items.dropLast ++ [last]))
      | none => none
    | some _ => none

/-- Adds a value under a key.  Every table that a dotted key names must come from dotted keys. -/
def assign (key : Key) (v : Value) (origin : Origin) (m : Members) : Option Members :=
  within true (fun origin m =>
    if (key.parents.isEmpty || origin = .dotted) && (m.find? key.name).isNone then
      some (m.put key.name v)
    else none) key.parents origin m

/-- Defines the table of a header. -/
def openTable (key : Key) (m : Members) : Option Members :=
  within false (fun _ m =>
    match m.find? key.name with
    | none => some (m.put key.name (.table .header []))
    | some (.table .path inner) => some (m.put key.name (.table .header inner))
    | some _ => none) key.parents .header m

/-- Adds a table to an array of tables. -/
def openEntry (key : Key) (m : Members) : Option Members :=
  within false (fun _ m =>
    match m.find? key.name with
    | none => some (m.put key.name (.tables [[]]))
    | some (.tables items) => some (m.put key.name (.tables (items ++ [[]])))
    | some _ => none) key.parents .header m

end Members

/-! ### Statements -/

inductive Statement where
  | assign (key : Key) (v : Value)
  | table (key : Key)
  | entry (key : Key)

/-- Carries out the statements of a document.  Keys belong to the table opened last, to which
`open_` leads. -/
def carryOut (open_ : List String) (m : Members) : List Statement → Option Members
  | [] => some m
  | .assign key v :: rest =>
    match Members.within false (Members.assign key v) open_ .header m with
    | some m => carryOut open_ m rest
    | none => none
  | .table key :: rest =>
    match m.openTable key with
    | some m => carryOut key.path m rest
    | none => none
  | .entry key :: rest =>
    match m.openEntry key with
    | some m => carryOut key.path m rest
    | none => none

end ReplicatedLedger.Toml
