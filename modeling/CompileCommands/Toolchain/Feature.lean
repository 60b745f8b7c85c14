import CompileCommands.Fields

set_option autoImplicit false

/- Toolchain features: flags that are added to some actions while the feature is enabled. -/
namespace CompileCommands

open Json (Value Members)

def cxxCompileAction : String := "c++-compile"

def cCompileAction : String := "c-compile"

/-- The compile actions; the first one enabled is taken. -/
def compileActions : List String := [cxxCompileAction, cCompileAction]

structure Feature where
  name : String
  flags : List String
  actions : List String
  enabled : Bool
  deriving DecidableEq, Repr

namespace Feature

def compilerInputName : String := "compiler_input_flags"

/-- The feature that every toolchain has: it names the file to compile. -/
def compilerInput : Feature where
  name := compilerInputName
  flags := ["-c", "\x7bsource_file\x7d"]
  actions := compileActions
  enabled := true

def ofMembers (members : Members) : Except Failure Feature := do
  let some name := members.find? "name"
    | throw (.description (.featureWithoutName (.object members)))
  let owner := "toolchain feature " ++ name.text
  let flags ← Fields.strings owner "flags" members
  let actions ←
    if (members.find? "actions").isSome then Fields.strings owner "actions" members
    else pure compileActions
  let enabled := ((members.find? "enabled").map fun value => !value.isFalsy).getD false
  return ⟨name.text, flags, actions, enabled⟩

/-- A feature is described by its name alone or by an object. -/
def ofValue : Value → Except Failure Feature
  | .string name => .ok ⟨name, [], compileActions, false⟩
  | .object members => ofMembers members
  | found => .error (.description (.featureShape found))

end Feature

end CompileCommands
