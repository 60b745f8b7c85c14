import CompileCommands.OrderedUnique
import CompileCommands.Toolchain.Feature
import CompileCommands.Toolchain.Template

set_option autoImplicit false

/- The toolchain: it decides which compile actions are enabled for a target, which tool carries out
an action, and which flags the tool is given. -/
namespace CompileCommands

open Json (Value Members)

structure Toolchain where
  tools : Table String String
  defaultActions : List String
  features : List Feature
  templates : FlagTemplates
  copts : List String
  cxxopts : List String

/-- The features and actions that are enabled for one request; both are sets, listed in order. -/
structure Configuration where
  features : List String
  actions : List String
  deriving DecidableEq, Repr

/-- What the flags of one compilation are made of. -/
structure Variables where
  sourceFile : String
  userFlags : List String
  values : FlagGroup → List String

/-- The set of some texts, listed in order. -/
def textSet (texts : List String) : List String := Text.sorted (orderedUnique texts)

@[simp] theorem mem_textSet (texts : List String) (text : String) :
    text ∈ textSet texts ↔ text ∈ texts := by
  simp [textSet, mem_orderedUnique]

namespace Toolchain

/-- A toolchain without a feature that names the file to compile is given one. -/
def withCompilerInput (features : List Feature) : List Feature :=
  if features.any (·.name == Feature.compilerInputName) then features
  else features ++ [Feature.compilerInput]

def knownActions (toolchain : Toolchain) : List String :=
  textSet (toolchain.defaultActions ++ toolchain.tools.keys)

/-- Features and actions are requested and disabled by name alike; disabling wins. -/
def configure (toolchain : Toolchain) (requested unsupported : List String) : Configuration :=
  let declared := toolchain.features.map (·.name)
  let always := (toolchain.features.filter (·.enabled)).map (·.name)
  let features := always ++ requested.filter declared.contains
  let actions := toolchain.defaultActions ++ requested.filter toolchain.knownActions.contains
  { features := textSet (features.filter (!unsupported.contains ·))
    actions := textSet (actions.filter (!unsupported.contains ·)) }

def toolFor (toolchain : Toolchain) (configuration : Configuration) (action : String) :
    Except Failure String :=
  if !configuration.actions.contains action then
    .error (.toolchain (.disabledAction action))
  else
    match toolchain.tools.find? action with
    | none | some "" => .error (.toolchain (.noTool action))
    | some tool => .ok tool

/-- The flags of the compilation context, group after group and value after value. -/
def contextFlags (toolchain : Toolchain) (values : FlagGroup → List String) :
    Except Failure (List String) := do
  let blocks ← FlagGroup.all.mapM fun group =>
    (values group).mapM (toolchain.templates group).flags
  return blocks.flatten.flatten

/-- The mark that the source file takes the place of in the flags of a feature. -/
def sourceFilePlace : List Char := "\x7bsource_file\x7d".toList

def featureFlag (sourceFile flag : String) : String :=
  String.ofList (Text.replace sourceFilePlace sourceFile.toList flag.toList)

/-- The flags of the enabled features that apply to an action, in the order of declaration. -/
def featureFlags (toolchain : Toolchain) (configuration : Configuration)
    (action sourceFile : String) : List String :=
  let applying := toolchain.features.filter fun feature =>
    configuration.features.contains feature.name && feature.actions.contains action
  applying.flatMap fun feature => feature.flags.map (featureFlag sourceFile)

/-- The flags of an action: those of the user, of the compilation context and of the features. -/
def flags (toolchain : Toolchain) (configuration : Configuration) (action : String)
    (parts : Variables) : Except Failure (List String) := do
  let context ← toolchain.contextFlags parts.values
  return parts.userFlags ++ context ++
    toolchain.featureFlags configuration action parts.sourceFile

def toolsOf : Option Value → Except Failure (Table String String)
  | none => .ok []
  | some (.object members) => .ok (members.map fun member => (member.1, member.2.text))
  | some _ => .error (.description .toolsNotObject)

def featuresOf : Option Value → Except Failure (List Value)
  | none => .ok []
  | some (.array items) => .ok items
  | some found => .error (.description (.featuresNotList found))

def ofSection (members : Members) (copts cxxopts : List String) : Except Failure Toolchain := do
  let tools ← toolsOf (members.find? "tools")
  let actions ←
    if (members.find? "actions").isSome then Fields.strings "toolchain" "actions" members
    else pure compileActions
  let described ← featuresOf (members.find? "features")
  let features ← described.mapM Feature.ofValue
  let ownCopts ← Fields.strings "toolchain" "copts" members
  let ownCxxopts ← Fields.strings "toolchain" "cxxopts" members
  let templates ← FlagTemplates.ofValue? (members.find? "flag_templates")
  return {
    tools := tools
    defaultActions := actions
    features := withCompilerInput features
    templates := templates
    copts := ownCopts ++ copts
    cxxopts := ownCxxopts ++ cxxopts }

/-- Reads the toolchain of a description; `copts` and `cxxopts` come after the described ones. -/
def ofDescription (description : Members) (copts cxxopts : List String) :
    Except Failure Toolchain :=
  match description.find? "toolchain" with
  | none => ofSection [] copts cxxopts
  | some (.object members) => ofSection members copts cxxopts
  | some _ => .error (.description .toolchainNotObject)

end Toolchain

end CompileCommands
