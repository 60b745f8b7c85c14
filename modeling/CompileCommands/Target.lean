import CompileCommands.Context

set_option autoImplicit false

/- A target of a build graph: its rule kind, its files, the targets it depends on and what it is
compiled with. Labels of targets and dependencies are canonical. -/
namespace CompileCommands

open Json (Value Members)

structure Target where
  label : String
  kind : String
  workspace : String
  srcs : List String
  hdrs : List String
  deps : List String
  outputs : List String
  context : Option Context
  features : List String
  disabledFeatures : List String
  deriving DecidableEq, Repr

namespace Target

def requiredText (key : String) (members : Members) : Except Failure String :=
  match members.find? key with
  | some value => .ok value.text
  | none => .error (.description (.missingField key))

def optionalContext (members : Members) : Except Failure (Option Context) :=
  match members.find? "compilation_context" with
  | none | some .null => .ok none
  | some value => (Context.ofValue value).map some

/-- Reads a target. The context is read before the lists, and labels are read when every member has
the right shape. -/
def ofMembers (members : Members) : Except Failure Target := do
  let name ← requiredText "label" members
  let kind ← requiredText "kind" members
  let owner := "target " ++ name
  let context ← optionalContext members
  let srcs ← Fields.strings owner "srcs" members
  let hdrs ← Fields.strings owner "hdrs" members
  let deps ← Fields.strings owner "deps" members
  let outputs ← Fields.strings owner "outputs" members
  let features ← Fields.strings owner "features" members
  let disabledFeatures ← Fields.strings owner "disabled_features" members
  let label ← (Label.parse name).mapError fun fault => .description (.label name fault)
  let deps ← deps.mapM Label.canonicalize
  return {
    label := label.text
    kind := kind
    workspace := label.workspace
    srcs := srcs
    hdrs := hdrs
    deps := orderedUnique deps
    outputs := outputs
    context := context
    features := features
    disabledFeatures := disabledFeatures }

def ofValue : Value → Except Failure Target
  | .object members => ofMembers members
  | found => .error (.description (.targetNotObject found))

end Target

end CompileCommands
