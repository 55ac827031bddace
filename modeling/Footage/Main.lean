import Footage.Config.Load
import Footage.Replay

/-!
# The command line

`footage [--skip-invalid] <device> <unit> <start> <end> <increment>` replays the events of standard
input and writes each page of the listing on a line of its own. Settings come from `config.yaml`, from
the document that `DENSITY_CONFIG` names, and from variables whose names begin with `DENSITY__`.
-/

namespace Footage.CommandLine

/-- The usage line. -/
def usage : String :=
  "usage: footage [--skip-invalid] <device> <unit> <start_ms> <end_ms> <increment_ms>"

/-- The document of a name, none if it cannot be read. -/
def readDocument (name : String) : IO (Option String) := do
  try
    return Text.ofBytes? (← IO.FS.readBinFile name).data.toList
  catch _ => return none

/-- The document of a name, if there is one. -/
def findDocument (name : String) : IO (List (Option String)) := do
  try
    return [Text.ofBytes? (← IO.FS.readBinFile name).data.toList]
  catch
    | .noFileOrDirectory .. => return []
    | _ => return [none]

/-- The variables that can be set. -/
def variableNames : List String :=
  let names (start : String) (ns : List String) := ns.map fun n => start ++ n.map Char.toUpper
  names "DENSITY__STORAGE__" ["type"] ++ names "DENSITY__STORAGE__DYNAMO__" Settings.tableNames ++
    names "DENSITY__TIMELINE__" Settings.pagingNames

/-- The settings of the working directory and the environment. -/
def loadSettings : IO (Option Settings) := do
  let working ← findDocument "config.yaml"
  let named ← match ← IO.getEnv "DENSITY_CONFIG" with
    | some name => pure [← readDocument name]
    | none => pure []
  let environment ← variableNames.filterMapM fun name => do
    return (← IO.getEnv name).map (name, ·)
  return Config.load (working ++ named) environment

/-- The bytes of a stream up to its end, after those read so far. -/
partial def readToEnd (s : IO.FS.Stream) (seen : ByteArray) : IO ByteArray := do
  let chunk ← s.read 65536
  if chunk.isEmpty then return seen else readToEnd s (seen ++ chunk)

/-- Run the command: write the pages, and the usage line where the arguments cannot be read. -/
def run (args : List String) : IO UInt32 := do
  let settings ← loadSettings
  let input ← readToEnd (← IO.getStdin) .empty
  let outcome := Replay.run args settings input.data.toList
  for page in outcome.pages do
    IO.println page.toValue.text
  if (Replay.Arguments.parse? args).isNone then
    IO.eprintln usage
  return outcome.code.toUInt32

end Footage.CommandLine

def main (args : List String) : IO UInt32 := Footage.CommandLine.run args
