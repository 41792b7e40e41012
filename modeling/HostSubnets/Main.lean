import HostSubnets.Cli.Session

/-!
# The program

Reads the node records to work on from standard input, as a list object, runs the command of the
command line on them, and writes the records afterwards to standard output. What is logged goes to
standard error.
-/

namespace HostSubnets.Main

def environment : IO (List (String × String)) :=
  CliOption.ofController.filterMapM fun o =>
    match o.variableName with
    | none => pure none
    | some name => do
      let value ← IO.getEnv name
      pure (value.map fun value => (name, value))

partial def readAll (input : IO.FS.Stream) (text : String) : IO String := do
  let line ← input.getLine
  if line.isEmpty then pure text else readAll input (text ++ line)

def records? (text : String) : Option Records := (Node.readList? text.toList).map Cache.ofNodes

def answer : UsageError → String
  | .missingCommand => "no command is given"
  | .helpRequested => "commands: " ++ String.intercalate ", " Cli.commandNames
  | .versionRequested => "node subnets from cluster ranges"
  | .unknownCommand => "there is no such command"
  | .unknownArgument word => "unknown argument " ++ word
  | .repeated o => o.usage ++ " is given twice"
  | .valueForFlag flag => flag ++ " takes no value"
  | .invalidValue o => o.usage ++ " has no value, or a wrong one"
  | .malformed o reason => o.usage ++ ": " ++ reason.getD "wrong value"

/-- A run that ends once all nodes were reconciled. -/
def session (records : Records) : Session where
  occupied := false
  signal := .terminate
  writes := records.size + 1
  limit := 1000

def outcome (command : Command) (records : Records) : Outcome :=
  command.run (session records) (.ofRecords records)

end HostSubnets.Main

open HostSubnets HostSubnets.Main in
def main (args : List String) : IO UInt32 := do
  match Command.read (← environment) args with
  | .error e =>
    (← IO.getStderr).putStrLn (answer e)
    return e.exitCode.toUInt32
  | .ok command =>
    match records? (← readAll (← IO.getStdin) "") with
    | none =>
      (← IO.getStderr).putStrLn "standard input is no list of nodes"
      return 1
    | some records =>
      let o := outcome command records
      for line in LogEntry.lines o.log do
        (← IO.getStderr).putStrLn line
      (← IO.getStdout).putStrLn (Node.listToJson o.server.records.values).toString
      return o.exitCode.toUInt32
