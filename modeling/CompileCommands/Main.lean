import CompileCommands.CommandLine.Run

set_option autoImplicit false

/- The program. It looks at the places on the way of the paths it is given, runs, and then makes
the directories and files that the run made. -/
namespace CompileCommands.Main

open CommandLine FileSystem

/-- The versions of the packages that the program stands on. -/
def installed : Table String String :=
  [("networkx", "3.6.1"), ("packaging", "26.3"), ("colorama", "0.4.6")]

/-- What is at a place; links are followed. -/
def nodeAt? (place : List String) : IO (Option Node) := do
  let path := (← IO.currentDir) / placeText "/" place
  if ← path.isDir then return some .directory
  if ← path.pathExists then
    return some (.file (← IO.FS.readBinFile path).toList)
  return none

/-- The file system as far as some paths lead. -/
def snapshot (paths : List String) : IO FileSystem := do
  let here := (Path.ofText (← IO.currentDir).toString).absolute []
  let mut files : FileSystem := ⟨here, []⟩
  for text in paths do
    for place in (Path.ofText text).places here do
      if (files.node? place).isNone then
        if let some node ← nodeAt? place then
          files := files.put place node
  return files

/-- Makes what is new in the second file system, in the order in which it was made. -/
def realize (before after : FileSystem) : IO Unit := do
  for (place, node) in after.nodes do
    if before.node? place != some node then
      let path := (← IO.currentDir) / placeText "/" place
      match node with
      | .directory => IO.FS.createDir path
      | .file bytes => IO.FS.writeBinFile path (ByteArray.mk bytes.toArray)

def print : Terminal.Line → IO Unit
  | .out text => IO.println text
  | .err text => IO.eprintln text

/-- The paths that a run with some arguments looks at. -/
def pathsOf (arguments : List String) : List String :=
  match Options.parse arguments with
  | .ok options => [options.graph, options.output.getD ""]
  | .error _ => []

end CompileCommands.Main

def main (arguments : List String) : IO UInt32 := do
  let environment : CompileCommands.CommandLine.Environment := {
    isTerminal := ← (← IO.getStdout).isTty
    noColour := ← IO.getEnv "NO_COLOR"
    installed := CompileCommands.Main.installed }
  let before ← CompileCommands.Main.snapshot (CompileCommands.Main.pathsOf arguments)
  let outcome := environment.run arguments before
  CompileCommands.Main.realize before outcome.files
  for line in outcome.lines do
    CompileCommands.Main.print line
  return outcome.exitCode.toUInt32
