import CompileCommands.FileSystem.Error
import CompileCommands.Json.Fault
import CompileCommands.Json.Literal
import CompileCommands.Label
import CompileCommands.Terminal
import CompileCommands.Text.Sorted
import CompileCommands.Text.Utf8

set_option autoImplicit false

/- Everything that can go wrong, by cause. Descriptions of the wrong shape, unknown targets and bad
arguments are mistakes of the caller; graphs, toolchains and databases that cannot be used are
failures of the run. The remaining causes are not reported by the program itself but by what it is
built on, and have no exit code of their own. -/
namespace CompileCommands

open Json (Value)
open Text (joined)

inductive DescriptionFault where
  | label (text : String) (fault : Label.Fault)
  | notStrings (owner key : String) (found : Value)
  | contextNotObject (found : Value)
  | contextFields (unknown : List String)
  | definesNotList (found : Value)
  | defineShape (found : Value)
  | targetNotObject (found : Value)
  | missingField (name : String)
  | noTargets
  | notFound (path : String)
  | malformed (path : String) (complaint : Json.Complaint) (location : Json.Location)
  | notObject (path : String)
  | toolchainNotObject
  | toolsNotObject
  | featuresNotList (found : Value)
  | featureShape (found : Value)
  | featureWithoutName (found : Value)

inductive GraphFault where
  | duplicate (label : String)
  | unknownDependency (label dependency : String)
  | cycle (labels : List String)
  deriving DecidableEq, Repr

inductive ToolchainFault where
  | unknownGroup (group : String)
  | templateWithoutPlace (group : String) (template : Value)
  | disabledAction (action : String)
  | noTool (action : String)

inductive DatabaseFault where
  | malformed (complaint : Json.Complaint) (location : Json.Location)
  | notArray
  | entryNotObject (index : Nat)
  | entryFields (index : Nat) (found : List String)
  | fieldNotString (index : Nat) (name : String)
  | unreadable (path : String) (error : FileSystem.SystemError)
  | unwritable (path : String) (error : FileSystem.SystemError)

/-- What needs the value of an option that withholds it; a flag stands among those of the user. -/
inductive WithheldValue where
  | path
  | jobs
  | root
  | flag (place : Nat)
  deriving DecidableEq, Repr

inductive Failure where
  | description (fault : DescriptionFault)
  | unknownTarget (label : String)
  | jobs (count : Int)
  | graph (fault : GraphFault)
  | toolchain (fault : ToolchainFault)
  | database (fault : DatabaseFault)
  | encoding (fault : Text.Utf8.Fault)
  | exceeded (excess : Json.Excess)
  | unprinted (refusal : Terminal.Refusal)
  | nullInPath
  | noWorkers
  | templatesNotObject (typeName : String)
  | templateNotSearchable (typeName : String)
  | templateNotText (typeName : String)
  | withheld (value : WithheldValue)

namespace DescriptionFault

def message : DescriptionFault → String
  | .label text fault => fault.message text
  | .notStrings owner key found =>
      (if owner.isEmpty then "" else owner ++ ": ") ++ "'" ++ key ++
        "' must be a list of strings, got " ++ found.literal
  | .contextNotObject found =>
      "compilation_context must be a JSON object, got " ++ found.literal
  | .contextFields unknown =>
      "Unknown compilation context field(s): " ++ joined ", " (Text.sorted unknown)
  | .definesNotList found =>
      "compilation_context: 'defines' must be a list, got " ++ found.literal
  | .defineShape found =>
      "Invalid define " ++ found.literal ++ ": expected [name] or [name, value]"
  | .targetNotObject found =>
      "Target description must be a JSON object, got " ++ found.literal
  | .missingField name =>
      "Target description is missing required field " ++ Text.quoted name
  | .noTargets => "Build graph description needs a 'targets' list"
  | .notFound path => "Build graph description not found: " ++ path
  | .malformed path complaint location =>
      "Invalid JSON in " ++ path ++ ": " ++ Json.malformedMessage complaint location
  | .notObject path => "Build graph description " ++ path ++ " must be a JSON object"
  | .toolchainNotObject => "'toolchain' must be a JSON object"
  | .toolsNotObject => "'toolchain.tools' must map action names to executables"
  | .featuresNotList found =>
      "toolchain: 'features' must be a list, got " ++ found.literal
  | .featureShape found =>
      "Toolchain feature must be a name or a JSON object, got " ++ found.literal
  | .featureWithoutName found => "Toolchain feature " ++ found.literal ++ " has no name"

end DescriptionFault

/-- A cycle is shown closed: its first label stands at both ends. -/
def GraphFault.message : GraphFault → String
  | .duplicate label => "Duplicate target " ++ label
  | .unknownDependency label dependency =>
      "Target " ++ label ++ " depends on unknown target " ++ dependency
  | .cycle labels =>
      "Dependency cycle detected: " ++ joined " -> " (labels ++ labels.take 1)

def ToolchainFault.message : ToolchainFault → String
  | .unknownGroup group => "Unknown flag template group '" ++ group ++ "'"
  | .templateWithoutPlace group template =>
      "Flag template for '" ++ group ++ "' must contain '\x7b\x7d': " ++ template.literal
  | .disabledAction action => "Action '" ++ action ++ "' is not enabled"
  | .noTool action => "Toolchain has no tool for action '" ++ action ++ "'"

def DatabaseFault.message : DatabaseFault → String
  | .malformed complaint location =>
      "Invalid compilation database JSON: " ++ Json.malformedMessage complaint location
  | .notArray => "Compilation database must be a JSON array"
  | .entryNotObject index => "Entry " ++ toString index ++ " is not a JSON object"
  | .entryFields index found =>
      "Entry " ++ toString index ++
        " must have exactly the fields command, directory, file, got " ++
        joined ", " (Text.sorted found)
  | .fieldNotString index name =>
      "Entry " ++ toString index ++ " field '" ++ name ++ "' must be a string"
  | .unreadable path error => "Failed to read " ++ path ++ ": " ++ error.message
  | .unwritable path error => "Failed to write " ++ path ++ ": " ++ error.message

def WithheldValue.message : WithheldValue → String
  | .path => "expected str, bytes or os.PathLike object, not list"
  | .jobs => "'<' not supported between instances of 'list' and 'int'"
  | .root => "'list' object has no attribute 'rstrip'"
  | .flag place => "sequence item " ++ toString place ++ ": expected str instance, list found"

def WithheldValue.failureName : WithheldValue → String
  | .root => "AttributeError"
  | .path | .jobs | .flag _ => "TypeError"

namespace Failure

def message : Failure → String
  | .description fault => fault.message
  | .unknownTarget label => "Target '" ++ label ++ "' not found in build graph"
  | .jobs count => "--jobs must be at least 1, got " ++ toString count
  | .graph fault => fault.message
  | .toolchain fault => fault.message
  | .database fault => fault.message
  | .encoding fault => fault.message
  | .exceeded excess => excess.message
  | .unprinted refusal => refusal.message
  | .nullInPath => "embedded null byte"
  | .noWorkers => "max_workers must be greater than 0"
  | .templatesNotObject typeName => "'" ++ typeName ++ "' object has no attribute 'items'"
  | .templateNotSearchable typeName =>
      "argument of type '" ++ typeName ++ "' is not iterable"
  | .templateNotText typeName => "'" ++ typeName ++ "' object has no attribute 'split'"
  | .withheld value => value.message

/-- The exit code of the failures that the program reports itself: one for the caller's mistakes,
two for the others. -/
def exitCode? : Failure → Option Nat
  | .description _ | .unknownTarget _ | .jobs _ => some 1
  | .graph _ | .toolchain _ | .database _ => some 2
  | _ => none

/-- The name under which an unexpected failure is logged. -/
def unexpectedName? : Failure → Option String
  | .encoding _ => some "UnicodeDecodeError"
  | .exceeded excess => some excess.failureName
  | .unprinted refusal => some refusal.name
  | .nullInPath | .noWorkers => some "ValueError"
  | .templatesNotObject _ | .templateNotText _ => some "AttributeError"
  | .templateNotSearchable _ => some "TypeError"
  | .withheld value => some value.failureName
  | _ => none

end Failure

/-- A label in its canonical spelling, or the failure that names the text as it was given. -/
def Label.canonicalize (text : String) : Except Failure String :=
  match Label.canonical text with
  | .ok label => .ok label
  | .error fault => .error (.description (.label text fault))

end CompileCommands
