import CompileCommands.Entry
import CompileCommands.Target
import CompileCommands.Toolchain

set_option autoImplicit false

/- From targets to entries: the files a target compiles, the command for each of them, and the
reasons why there may be none. -/
namespace CompileCommands

namespace Target

def protoRuleKind : String := "cc_proto_library"

/-- The extension of a path with its dot: what stands after the last dot of the last component,
unless only dots stand before it. -/
def extension (path : List Char) : List Char :=
  let name := (Text.afterLast '/' path).reverse
  match name.dropWhile (· != '.') with
  | [] => []
  | _ :: stem => if stem.all (· == '.') then [] else '.' :: (name.takeWhile (· != '.')).reverse

def generatedExtensions : List (List Char) := [['.', 'h'], ['.', 'c', 'c']]

/-- The outputs of a rule that generates sources which can be compiled. -/
def generatedSources (target : Target) : List String :=
  if target.kind = protoRuleKind then
    target.outputs.filter fun output => generatedExtensions.contains (extension output.toList)
  else []

/-- The files a target compiles: declared sources, headers, then generated sources. A file listed
twice is compiled once. -/
def sources (target : Target) : List String :=
  Table.keys (Table.ofPairs
    ((target.srcs ++ target.hdrs ++ target.generatedSources).map fun file => (file, ())))

end Target

/-- Why there is no command for a target. -/
inductive Omission where
  | noContext
  | noAction
  | noTool (reason : Failure)

namespace Synthesis

def compileAction? (configuration : Configuration) : Option String :=
  compileActions.find? configuration.actions.contains

def configurationFor (toolchain : Toolchain) (target : Target) : Configuration :=
  toolchain.configure target.features target.disabledFeatures

def variablesFor (toolchain : Toolchain) (context : Context) (source : String) : Variables where
  sourceFile := source
  userFlags := toolchain.cxxopts ++ toolchain.copts
  values
    | .includes => context.includes
    | .quoteIncludes => context.quoteIncludes
    | .systemIncludes => context.systemIncludes
    | .frameworkIncludes => context.frameworkIncludes
    | .defines => context.defineTexts

def quotedCommand (tool : String) (flags : List String) : String :=
  "\"" ++ tool ++ "\" " ++ Text.joined " " flags

/-- The command that compiles a file as part of a target. -/
def commandLine (toolchain : Toolchain) (target : Target) (source : String) :
    Except Failure (Except Omission String) :=
  match target.context with
  | none => .ok (.error .noContext)
  | some context =>
      let configuration := configurationFor toolchain target
      match compileAction? configuration with
      | none => .ok (.error .noAction)
      | some action =>
          match toolchain.toolFor configuration action with
          | .error reason => .ok (.error (.noTool reason))
          | .ok tool =>
              let parts := variablesFor toolchain context source
              match toolchain.flags configuration action parts with
              | .error failure => .error failure
              | .ok flags => .ok (.ok (quotedCommand tool flags))

def entryOf (source command : String) : Entry where
  command := command
  directory := executionRootPlaceholder
  file := workspacePlaceholder ++ "/" ++ source

/-- The entry of a file, whether or not the target lists it. A command without text is none. -/
def entryFor (toolchain : Toolchain) (target : Target) (source : String) :
    Except Failure (Option Entry) :=
  match commandLine toolchain target source with
  | .error failure => .error failure
  | .ok (.error _) => .ok none
  | .ok (.ok command) =>
      if command = "" then .ok none else .ok (some (entryOf source command))

/-- The entry of a file that the target compiles. -/
def sourceEntry (toolchain : Toolchain) (target : Target) (source : String) :
    Except Failure (Option Entry) :=
  if target.sources.contains source then entryFor toolchain target source else .ok none

/-- The entries of a target, one for each of its files that has a command. -/
def targetEntries (toolchain : Toolchain) (target : Target) : Except Failure (List Entry) := do
  return (← target.sources.mapM (entryFor toolchain target)).reduceOption

end Synthesis

end CompileCommands
