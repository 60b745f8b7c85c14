import CompileCommands.Failure

set_option autoImplicit false

/- Flag templates turn a value of the compilation context, such as an include directory, into
flags. The words of a template become one flag each, with the value at every place marked by a
pair of braces. -/
namespace CompileCommands

open Json (Value Members)

/-- The values of a compilation context, in the order of their flags. -/
inductive FlagGroup where
  | includes
  | quoteIncludes
  | systemIncludes
  | frameworkIncludes
  | defines
  deriving DecidableEq, Repr

namespace FlagGroup

def all : List FlagGroup :=
  [.includes, .quoteIncludes, .systemIncludes, .frameworkIncludes, .defines]

theorem mem_all (group : FlagGroup) : group ∈ all := by cases group <;> decide

def name : FlagGroup → String
  | .includes => "includes"
  | .quoteIncludes => "quote_includes"
  | .systemIncludes => "system_includes"
  | .frameworkIncludes => "framework_includes"
  | .defines => "defines"

def ofName? (name : String) : Option FlagGroup := all.find? (·.name == name)

@[simp] theorem ofName?_name (group : FlagGroup) : ofName? group.name = some group := by
  cases group <;> decide

end FlagGroup

/-- A template is a text. A description may also hold a list or an object that passes the check for
a marked place; it fails when a flag is made of it. -/
inductive FlagTemplate where
  | text (template : String)
  | other (value : Value)

abbrev FlagTemplates := FlagGroup → FlagTemplate

namespace FlagTemplate

/-- The mark that a value takes the place of. -/
def place : List Char := ['{', '}']

def placeText : String := String.ofList place

/-- The flags of one value. -/
def flagsOfText (template value : String) : List String :=
  (Text.words template.toList).map fun word =>
    String.ofList (Text.replace place value.toList word)

def flags : FlagTemplate → String → Except Failure (List String)
  | .text template, value => .ok (flagsOfText template value)
  | .other found, _ => .error (.templateNotText found.typeName)

/-- Whether the place is marked: within a text, as an item of a list, or as a name in an object. -/
def marksPlace : Value → Except Failure Bool
  | .string template => .ok (Text.occurs place template.toList)
  | .array items =>
      .ok (items.any fun
        | .string item => item == placeText
        | _ => false)
  | .object members => .ok ((Table.find? placeText members).isSome)
  | found => .error (.templateNotSearchable found.typeName)

def ofValue (group : String) (value : Value) : Except Failure FlagTemplate := do
  if !(← marksPlace value) then throw (.toolchain (.templateWithoutPlace group value))
  match value with
  | .string template => return .text template
  | found => return .other found

end FlagTemplate

namespace FlagTemplates

def default : FlagTemplates
  | .includes => .text "-I\x7b\x7d"
  | .quoteIncludes => .text "-iquote \x7b\x7d"
  | .systemIncludes => .text "-isystem \x7b\x7d"
  | .frameworkIncludes => .text "-F\x7b\x7d"
  | .defines => .text "-D\x7b\x7d"

def set (templates : FlagTemplates) (group : FlagGroup) (template : FlagTemplate) :
    FlagTemplates :=
  fun other => if other = group then template else templates other

/-- The default templates with those of a description in their places. -/
def override (templates : FlagTemplates) : List (String × Value) → Except Failure FlagTemplates
  | [] => .ok templates
  | (name, value) :: rest =>
      match FlagGroup.ofName? name with
      | none => .error (.toolchain (.unknownGroup name))
      | some group =>
          match FlagTemplate.ofValue name value with
          | .error failure => .error failure
          | .ok template => override (templates.set group template) rest

/-- A description that counts as absent leaves the default templates. -/
def ofValue? : Option Value → Except Failure FlagTemplates
  | none => .ok default
  | some (.object members) => override default members
  | some found =>
      if found.isFalsy then .ok default else .error (.templatesNotObject found.typeName)

end FlagTemplates

end CompileCommands
