import ReplicatedLedger.Identifier
import ReplicatedLedger.Numeral

/-!
Options of a command line.  An option has a value, attached with an equals sign or given as the next
argument; options come before the first operand.
-/

namespace ReplicatedLedger.CommandLine

inductive ValueKind where
  | path
  | word
  deriving DecidableEq, Repr

structure Opt where
  name : String
  short : Option Char := none
  kind : ValueKind := .word
  help : String
  deriving DecidableEq, Repr

/-- Reads a 64-bit number, before which a plus sign may stand. -/
def word? (s : String) : Option Word :=
  let digits :=
    match s.toList with
    | '+' :: rest => rest
    | cs => cs
  if digits.isEmpty || !digits.all Char.isDigit then none
  else if Numeral.value 10 digits < UInt64.size then some (UInt64.ofNat (Numeral.value 10 digits))
  else none

/-- Whether an option may have a value. -/
def Opt.accepts (o : Opt) (value : String) : Bool :=
  match o.kind with
  | .path => !value.isEmpty
  | .word => (word? value).isSome

/-- Why the arguments name nothing to be done. -/
inductive Interruption where
  | usage
  | help
  | version
  deriving DecidableEq, Repr

/-- What one argument is, among some options. -/
inductive Argument where
  | operand
  | endOfOptions
  | unknown
  | interruption (i : Interruption)
  /-- An option whose value is the next argument. -/
  | opening (o : Opt)
  | complete (o : Opt) (value : String)

/-- The options of a command, and whether it tells its version. -/
structure OptionTable where
  options : List Opt
  hasVersion : Bool := false

namespace OptionTable

def longArgument (t : OptionTable) (name : String) (value : Option String) : Argument :=
  match t.options.find? (·.name = name), value with
  | some o, some value => .complete o value
  | some o, none => .opening o
  | none, some _ => .unknown
  | none, none =>
    if name = "help" then .interruption .help
    else if name = "version" && t.hasVersion then .interruption .version
    else .unknown

def shortArgument (t : OptionTable) (c : Char) (rest : List Char) : Argument :=
  match t.options.find? (·.short = some c) with
  | some o =>
    match rest with
    | [] => .opening o
    | '=' :: value => .complete o (String.ofList value)
    | value => .complete o (String.ofList value)
  | none =>
    if c = 'h' then .interruption .help
    else if c = 'V' && t.hasVersion then .interruption .version
    else .unknown

def argument (t : OptionTable) (s : String) : Argument :=
  match s.toList with
  | ['-', '-'] => .endOfOptions
  | '-' :: '-' :: rest =>
    let name := String.ofList (rest.takeWhile (· ≠ '='))
    match rest.dropWhile (· ≠ '=') with
    | [] => t.longArgument name none
    | _ :: value => t.longArgument name (some (String.ofList value))
  | '-' :: c :: rest => t.shortArgument c rest
  | _ => .operand

end OptionTable

/-! ### Reading options -/

/-- Options read so far.  The last one is checked when the next comes or all have been read. -/
structure Reading where
  given : List (Opt × String) := []
  last : Option (Opt × String) := none

namespace Reading

/-- Checks the last option: an option comes once, with a value of its kind. -/
def check (r : Reading) : Except Interruption Reading :=
  match r.last with
  | none => .ok r
  | some (o, value) =>
    if o.accepts value && !r.given.any (·.1 = o) then .ok { given := r.given ++ [(o, value)] }
    else .error .usage

def add (r : Reading) (o : Opt) (value : String) : Except Interruption Reading := do
  return { ← r.check with last := some (o, value) }

def value? (r : Reading) (o : Opt) : Option String :=
  (r.given.find? (·.1 = o)).map (·.2)

def word? (r : Reading) (o : Opt) : Option Word := (r.value? o).bind CommandLine.word?

end Reading

/-- Reads options up to the first operand, and gives the arguments from there on. -/
def readOptions (t : OptionTable) :
    List String → Reading → Except Interruption (Reading × List String)
  | [], r => .ok (r, [])
  | s :: rest, r =>
    match t.argument s with
    | .operand => .ok (r, s :: rest)
    | .endOfOptions => if rest.isEmpty then .ok (r, []) else .error .usage
    | .unknown => .error .usage
    | .interruption i => do
      let _ ← r.check
      .error i
    | .complete o value => do
      let r ← r.add o value
      readOptions t rest (← r.check)
    | .opening o =>
      match rest with
      | [] => .error .usage
      | value :: rest =>
        match t.argument value with
        | .operand => do readOptions t rest (← r.add o value)
        | _ => .error .usage

end ReplicatedLedger.CommandLine
