import ReplicatedLedger.CommandLine.Option
import ReplicatedLedger.Config.Basic

/-!
The commands of the program, and what a list of arguments asks for.
-/

namespace ReplicatedLedger.CommandLine

inductive Task where
  /-- Run some transfers and print every replica's log. -/
  | demo
  /-- Carry out one transfer. -/
  | transfer (tid : Tid) (txn : Transaction)
  deriving DecidableEq, Repr

structure Invocation where
  configPath : Option String := none
  shards : Option Word := none
  replicas : Option Word := none
  task : Task
  deriving DecidableEq, Repr

/-! ### Commands and options -/

def configOption : Opt where
  name := "config"
  short := some 'c'
  kind := .path
  help := "TOML cluster configuration. Defaults apply when omitted"

def shardsOption : Opt where
  name := "shards"
  help := "Override the number of shards"

def replicasOption : Opt where
  name := "replicas"
  help := "Override the replicas per shard"

def tidOption : Opt where
  name := "tid"
  help := "Transaction id"

def senderOption : Opt where
  name := "from"
  help := "Sender account"

def receiverOption : Opt where
  name := "to"
  help := "Receiver account"

def amountOption : Opt where
  name := "amount"
  help := "Amount to move"

def generalTable : OptionTable := ⟨[configOption, shardsOption, replicasOption], true⟩

def demoTable : OptionTable := ⟨[], false⟩

def transferTable : OptionTable :=
  ⟨[tidOption, senderOption, receiverOption, amountOption], false⟩

/-- The commands with what is said about them. -/
inductive Verb where
  | demo
  | transfer
  | help
  deriving DecidableEq, Repr

namespace Verb

def all : List Verb := [demo, transfer, help]

def name : Verb → String
  | demo => "demo"
  | transfer => "transfer"
  | help => "help"

def about : Verb → String
  | demo => "Run the reference scenarios and print every replica's log"
  | transfer => "Submit one transfer, cross-shard when the accounts live on different shards"
  | help => "Print this message or the help of the given subcommand(s)"

def ofName? (name : String) : Option Verb := all.find? (·.name = name)

end Verb

/-! ### Help -/

def Opt.synopsis (o : Opt) : String := "--" ++ o.name ++ " <" ++ o.name.map Char.toUpper ++ ">"

/-- The flags of an option, as the help shows them. -/
def Opt.flags (o : Opt) : String :=
  (match o.short with
    | some c => "-" ++ String.singleton c ++ ", "
    | none => "    ") ++ o.synopsis

/-- Lines of two columns. -/
def columns (rows : List (String × String)) : String :=
  let width := (rows.map (·.1.length)).foldl max 0
  String.join (rows.map fun row =>
    "  " ++ row.1 ++ String.ofList (List.replicate (width - row.1.length) ' ') ++ "  " ++ row.2 ++
      "\n")

def optionLines (t : OptionTable) : String :=
  "Options:\n" ++ columns (t.options.map (fun o => (o.flags, o.help)) ++ [("-h, --help", "Print help")] ++
    if t.hasVersion then [("-V, --version", "Print version")] else [])

def programName : String := "shardledger"

def versionLine : String := programName ++ " 0.1.0\n"

def generalHelp : String :=
  "Sharded, replicated ledger with cross-shard two-phase commit\n\nUsage: " ++ programName ++
    " [OPTIONS] <COMMAND>\n\nCommands:\n" ++ columns (Verb.all.map fun v => (v.name, v.about)) ++
    "\n" ++ optionLines generalTable

def Verb.usage (v : Verb) : String :=
  v.about ++ "\n\nUsage: " ++ programName ++ " " ++ v.name

/-- The help of a command, all of whose options are required. -/
def optionHelp (v : Verb) (t : OptionTable) : String :=
  v.usage ++ String.join (t.options.map fun o => " " ++ o.synopsis) ++ "\n\n" ++ optionLines t

def Verb.helpText : Verb → String
  | demo => optionHelp demo demoTable
  | transfer => optionHelp transfer transferTable
  | help =>
    Verb.help.usage ++ " [COMMAND]...\n\nArguments:\n" ++
      columns [("[COMMAND]...", "Print help for the subcommand(s)")]

/-! ### Arguments -/

/-- What arguments ask for. -/
inductive Wish where
  | run (i : Invocation)
  /-- Print a text. -/
  | print (text : String)
  /-- The arguments make no sense. -/
  | misuse

/-- The wish behind an interruption, where the command's help is given. -/
def Wish.ofInterruption (help : String) : Interruption → Wish
  | .usage => .misuse
  | .help => .print help
  | .version => .print versionLine

/-- The options of a command that takes no operands. -/
def readAll (t : OptionTable) (args : List String) : Except Interruption Reading := do
  match ← readOptions t args {} with
  | (r, []) => r.check
  | (_, _ :: _) => .error .usage

def transferTask? (r : Reading) : Option Task := do
  let tid ← r.word? tidOption
  let sender ← r.word? senderOption
  let receiver ← r.word? receiverOption
  let amount ← r.word? amountOption
  return .transfer ⟨tid⟩ ⟨⟨sender⟩, ⟨receiver⟩, amount⟩

/-- The task with the options that come before it. -/
def invoke (general : Reading) (task : Task) : Wish :=
  match general.check with
  | .error _ => .misuse
  | .ok r =>
    .run {
      configPath := r.value? configOption
      shards := r.word? shardsOption
      replicas := r.word? replicasOption
      task := task }

def readVerb (general : Reading) (args : List String) : Verb → Wish
  | .demo =>
    match readAll demoTable args with
    | .ok _ => invoke general .demo
    | .error i => .ofInterruption Verb.demo.helpText i
  | .transfer =>
    match readAll transferTable args with
    | .ok r =>
      match transferTask? r with
      | some task => invoke general task
      | none => .misuse
    | .error i => .ofInterruption Verb.transfer.helpText i
  | .help =>
    match args with
    | [] => .print generalHelp
    | [name] =>
      match Verb.ofName? name with
      | some v => .print v.helpText
      | none => .misuse
    | _ => .misuse

/-- What a list of arguments asks for. -/
def Wish.ofArguments (args : List String) : Wish :=
  match readOptions generalTable args {} with
  | .error i => .ofInterruption generalHelp i
  | .ok (_, []) => .misuse
  | .ok (general, name :: rest) =>
    match Verb.ofName? name with
    | some v => readVerb general rest v
    | none => .misuse

end ReplicatedLedger.CommandLine
