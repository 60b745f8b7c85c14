import CompileCommands.Fields
import CompileCommands.OrderedUnique

set_option autoImplicit false

/- What a target is compiled with: include directories of four sorts and preprocessor defines, each
without repetitions. -/
namespace CompileCommands

open Json (Value Members)

/-- A define without a value differs from one whose value is empty. -/
structure Define where
  name : String
  value : Option String
  deriving DecidableEq, Repr

namespace Define

/-- The name ends at the first equals sign, if there is one. -/
def ofText (text : String) : Define :=
  match Text.cut ['='] text.toList with
  | some (name, value) => ⟨String.ofList name, some (String.ofList value)⟩
  | none => ⟨text, none⟩

def text (define : Define) : String :=
  match define.value with
  | some value => define.name ++ "=" ++ value
  | none => define.name

/-- A define is described by its text, or by a list of its name and its value. -/
def ofValue : Value → Except Failure Define
  | .array [name] => .ok ⟨name.text, none⟩
  | .array [name, .null] => .ok ⟨name.text, none⟩
  | .array [name, value] => .ok ⟨name.text, some value.text⟩
  | .array items => .error (.description (.defineShape (.array items)))
  | value => .ok (ofText value.text)

end Define

structure Context where
  includes : List String
  quoteIncludes : List String
  systemIncludes : List String
  frameworkIncludes : List String
  defines : List Define
  deriving DecidableEq, Repr

namespace Context

def fieldNames : List String :=
  ["includes", "quote_includes", "system_includes", "framework_includes", "defines"]

def directories (key : String) (members : Members) : Except Failure (List String) := do
  return orderedUnique (← Fields.strings "compilation_context" key members)

/-- Reads a context. Shapes are checked first, the elements of `defines` last. -/
def ofMembers (members : Members) : Except Failure Context := do
  let unknown := (Table.keys members).filter (!fieldNames.contains ·)
  if !unknown.isEmpty then throw (.description (.contextFields unknown))
  let defines ←
    match members.find? "defines" with
    | none => pure []
    | some (.array items) => pure items
    | some found => throw (.description (.definesNotList found))
  let includes ← directories "includes" members
  let quoteIncludes ← directories "quote_includes" members
  let systemIncludes ← directories "system_includes" members
  let frameworkIncludes ← directories "framework_includes" members
  let defines ← defines.mapM Define.ofValue
  return ⟨includes, quoteIncludes, systemIncludes, frameworkIncludes, orderedUnique defines⟩

def ofValue : Value → Except Failure Context
  | .object members => ofMembers members
  | found => .error (.description (.contextNotObject found))

def defineTexts (context : Context) : List String := context.defines.map Define.text

end Context

end CompileCommands
