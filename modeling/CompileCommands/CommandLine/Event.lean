import CompileCommands.Json.Literal
import CompileCommands.Synthesis
import CompileCommands.Terminal

set_option autoImplicit false

/- What is told of a run while it goes on. Log lines go to standard error, those that only matter
for finding mistakes if they are asked for; messages for the user are in colour. -/
namespace CompileCommands.CommandLine

open Terminal (Line)

inductive Event where
  | satisfied (package installed least : String)
  | loadedDescription (path : String)
  | builtGraph (targets dependencies : Nat)
  | readTools (tools : Table String String)
  | loadedTargets (count : Nat) (path : String)
  | skipped (label reason : String)
  | omitted (label : String) (omission : Omission)
  | synthesized (computed visited skipped : Nat)
  | foundNothing
  | wroteEntries (count : Nat) (path : String)
  | wroteCommands (count labels : Nat) (path : String)

def debugLines (verbose : Bool) (text : String) : List Line :=
  if verbose then [.err ("DEBUG: " ++ text)] else []

def infoLine (text : String) : Line := .err ("INFO: " ++ text)

/-- Why a target has no command, as the log gives it. -/
def omissionText (label : String) : Omission → String
  | .noContext => label ++ " has no compilation context"
  | .noAction => label ++ ": no compile action enabled"
  | .noTool reason => label ++ ": " ++ reason.message

def toolsLiteral (tools : Table String String) : String :=
  (Json.Value.object (tools.map fun tool => (tool.1, .string tool.2))).literal

def loadedText (count : Nat) (path : String) : String :=
  "Loaded " ++ toString count ++ " targets from " ++ path

def wroteText (count labels : Nat) (path : String) : String :=
  "Wrote " ++ toString count ++ " compile commands for " ++ toString labels ++ " targets to " ++ path

/-- What is printed of an event on standard output. -/
def Event.printed? : Event → Option String
  | .loadedTargets count path => some (loadedText count path)
  | .wroteCommands count labels path => some (wroteText count labels path)
  | _ => none

def Event.lines (verbose coloured : Bool) : Event → List Line
  | .satisfied package installed least =>
      debugLines verbose (package ++ " " ++ installed ++ " satisfies >=" ++ least)
  | .loadedDescription path => [infoLine ("Loaded build graph description from " ++ path)]
  | .builtGraph targets dependencies =>
      debugLines verbose
        ("Built graph with " ++ toString targets ++ " targets and " ++ toString dependencies ++
          " edges")
  | .readTools tools => debugLines verbose ("Toolchain tools: " ++ toolsLiteral tools)
  | .loadedTargets count path =>
      [Terminal.say coloured .info (loadedText count path)]
  | .skipped label reason => debugLines verbose ("Skipping " ++ label ++ " (" ++ reason ++ ")")
  | .omitted label omission => debugLines verbose (omissionText label omission)
  | .synthesized computed visited others =>
      [infoLine ("Synthesized " ++ toString computed ++ " targets (" ++ toString visited ++
        " visited, " ++ toString others ++ " skipped)")]
  | .foundNothing =>
      [Terminal.say coloured .warning "No compile commands found for the requested targets"]
  | .wroteEntries count path =>
      [infoLine ("Wrote " ++ toString count ++ " entries to " ++ path)]
  | .wroteCommands count labels path =>
      [Terminal.say coloured .success (wroteText count labels path)]

/-- Whether a screen takes what is printed of an event. -/
def Event.shownOn (screen : Terminal.Screen) (event : Event) : Except Failure Unit :=
  match event.printed?.bind screen.refusal? with
  | none => .ok ()
  | some refusal => .error (.unprinted refusal)

/-- What is told of a failure. Those that the program does not report itself are logged with their
name. -/
def failureLines (coloured : Bool) (failure : Failure) : List Line :=
  let text := failure.message
  match failure.exitCode? with
  | some code =>
      [.err ("ERROR: " ++ text), Terminal.say coloured .error text] ++
        if code = 1 then
          [.err "Check the build graph description and the requested target labels"]
        else []
  | none =>
      [.err ("CRITICAL: Unexpected error: " ++ text),
        .err (failure.unexpectedName?.getD "" ++ ": " ++ text),
        Terminal.say coloured .error ("Fatal error: " ++ text),
        .err (Terminal.message coloured .warning false "Run with --verbose for more details")]

end CompileCommands.CommandLine
