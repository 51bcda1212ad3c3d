import ReplicatedLedger.CommandLine.Session

/-!
The program: reads the configuration file that the arguments name, and prints what comes of them.
-/

namespace ReplicatedLedger.CommandLine

def readFailure : IO.Error → FileError
  | .noFileOrDirectory .. => .notFound
  | .permissionDenied .. => .permissionDenied
  | .inappropriateType _ 20 _ => .notDirectory
  | .inappropriateType .. => .isDirectory
  | .userError _ => .notText
  | e => .other (toString e)

def readConfig (path : String) : IO (Except FileError String) := do
  try
    return .ok (← IO.FS.readFile path)
  catch e =>
    return .error (readFailure e)

/-- The contents of the file that the arguments name. -/
def namedConfig (args : List String) : IO (Except FileError String) :=
  match Wish.ofArguments args with
  | .run { configPath := some path, .. } => readConfig path
  | _ => return .ok ""

end ReplicatedLedger.CommandLine

open ReplicatedLedger.CommandLine in
def main (args : List String) : IO UInt32 := do
  let file ← namedConfig args
  let report := run args fun _ => file
  (← IO.getStdout).putStr report.output
  unless report.complaint.isEmpty do
    (← IO.getStderr).putStrLn report.complaint
  return report.exitCode
