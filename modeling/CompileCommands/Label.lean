import CompileCommands.Text.Blank
import CompileCommands.Text.Replace

set_option autoImplicit false

/- Target labels: `@workspace//package:name`. The workspace may be left out, and then the label
belongs to the main workspace; the name may be left out, and then it is the last component of the
package. Every label has one canonical spelling, which leaves out an empty workspace only. -/
namespace CompileCommands

structure Label where
  workspace : String
  package : String
  name : String
  deriving DecidableEq, Repr

namespace Label

inductive Fault where
  | missingSlashes
  | notAbsolute
  | emptyName
  deriving DecidableEq, Repr

def Fault.message (text : String) (fault : Fault) : String :=
  let reason :=
    match fault with
    | .missingSlashes => "missing '//'"
    | .notAbsolute => "labels must be absolute"
    | .emptyName => "empty target name"
  "Invalid label '" ++ text ++ "': " ++ reason

/-- The label whose text after the two slashes is `body`: the package ends at the first colon. -/
def ofBody (workspace body : List Char) : Except Fault Label :=
  let parts := (Text.cut [':'] body).getD (body, Text.afterLast '/' body)
  if parts.2.isEmpty then .error .emptyName
  else .ok ⟨String.ofList workspace, String.ofList parts.1, String.ofList parts.2⟩

/-- Any number of signs may stand before the workspace, which ends at the first two slashes. -/
def ofChars (text : List Char) : Except Fault Label :=
  match text with
  | '@' :: rest =>
      match Text.cut ['/', '/'] (rest.dropWhile (· == '@')) with
      | none => .error .missingSlashes
      | some (workspace, body) => ofBody workspace body
  | '/' :: '/' :: body => ofBody [] body
  | _ => .error .notAbsolute

/-- Reads a label, with blanks around it or without. -/
def parse (text : String) : Except Fault Label := ofChars (Text.strip text.toList)

/-- The canonical spelling. -/
def text (label : Label) : String :=
  (if label.workspace.isEmpty then "" else "@" ++ label.workspace) ++
    "//" ++ label.package ++ ":" ++ label.name

def canonical (text : String) : Except Fault String := (parse text).map Label.text

end Label

end CompileCommands
