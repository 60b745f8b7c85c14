import CompileCommands.Failure

set_option autoImplicit false

/- Reading the members of a description. A list of strings may be left out, and is then empty;
`owner` tells in messages whose member it is. -/
namespace CompileCommands.Fields

open Json (Value Members)

def strings (owner key : String) (members : Members) : Except Failure (List String) :=
  match members.find? key with
  | none => .ok []
  | some found =>
      match found.strings? with
      | some texts => .ok texts
      | none => .error (.description (.notStrings owner key found))

theorem strings_of_absent (owner key : String) (members : Members)
    (absent : members.find? key = none) : strings owner key members = .ok [] := by
  simp [strings, absent]

theorem strings_of_strings (owner key : String) (members : Members) (texts : List String)
    (found : members.find? key = some (.array (texts.map .string))) :
    strings owner key members = .ok texts := by
  simp [strings, found, Json.strings?_array]

end CompileCommands.Fields
