import LiveGraph.Command.Arguments
import LiveGraph.Command.Execution

/-!
# The command line

Reads the files an invocation names, carries it out, and writes what it saves. Texts go to standard
output, faults to standard error.
-/

namespace LiveGraph.CommandLine

def pathFault : IO.Error → PathFault
  | .inappropriateType .. => .isDirectory
  | _ => .notFound

/-- The file at a path, if it can be read. -/
def fetch (path : String) : IO Files := do
  try
    let content ← IO.FS.readBinFile path
    return [(Files.nameOf path, .ofList content.toList)]
  catch _ => return []

def fetchAll : List String → IO Files
  | [] => return []
  | path :: rest => do return (← fetch path) ++ (← fetchAll rest)

def fail (why : Fault) : IO UInt32 := do
  IO.eprintln ("Error: " ++ why.message)
  return 1

/-- Saves what a report saves, and then shows its text. -/
def publish (report : Report) : IO UInt32 := do
  if let some (path, snapshot) := report.save then
    try
      IO.FS.writeBinFile path ⟨((Encoding.ofPath path).write snapshot).toList.toArray⟩
    catch e => return ← fail (.file (.write path (pathFault e)))
  IO.print report.text
  return 0

def invoke (i : Invocation) : IO UInt32 := do
  let usual ← IO.getEnv "DAPGRAPH_CONFIG"
  let files ← fetchAll ((i.config.or usual).toList ++ [i.snapshot])
  match i.loadConfig usual files, i.loadSnapshot files with
  | .error why, _ => fail why
  | .ok _, .error why => fail why
  | .ok config, .ok loaded =>
    match i.perform config loaded with
    | none => return 1
    | some (.error why) => fail why
    | some (.ok report) => publish report

def usage : UsageFault → String
  | .unknownCommand => "unrecognized subcommand"
  | .unknownArgument => "unexpected argument found"
  | .missingArgument => "required arguments were not provided"
  | .missingValue => "a value is required but none was supplied"
  | .badValue => "invalid value"
  | .unneededValue => "unexpected value found"
  | .repeated => "an argument cannot be used multiple times"
  | .help | .version => "Queries and edits snapshots of debug sessions."

def run (args : List String) : IO UInt32 := do
  match Invocation.ofArguments args with
  | .ok i => invoke i
  | .error .help | .error .version =>
    IO.println (usage .help)
    return 0
  | .error why =>
    IO.eprintln ("error: " ++ usage why)
    return 2

end LiveGraph.CommandLine

def main (args : List String) : IO UInt32 :=
  LiveGraph.CommandLine.run args
