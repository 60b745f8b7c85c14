import CompileCommands.Entry
import CompileCommands.Text.Replace

set_option autoImplicit false

/- Filling placeholders: the execution root and the workspace root take the places of their
placeholders in all fields of an entry, the execution root first. A root that is not given leaves
its placeholder. -/
namespace CompileCommands.Placeholder

/-- A root without the slashes at its end; the root of the file system keeps one. -/
def trimmedRoot (root : List Char) : List Char :=
  let kept := (root.reverse.dropWhile (· == '/')).reverse
  if kept.isEmpty then ['/'] else kept

def fillOne (placeholder : String) (root : Option String) (text : List Char) : List Char :=
  match root with
  | none => text
  | some root => Text.replace placeholder.toList (trimmedRoot root.toList) text

def fill (executionRoot workspaceRoot : Option String) (text : String) : String :=
  String.ofList
    (fillOne workspacePlaceholder workspaceRoot
      (fillOne executionRootPlaceholder executionRoot text.toList))

def fillEntry (executionRoot workspaceRoot : Option String) (entry : Entry) : Entry where
  command := fill executionRoot workspaceRoot entry.command
  directory := fill executionRoot workspaceRoot entry.directory
  file := fill executionRoot workspaceRoot entry.file

def resolve (executionRoot workspaceRoot : Option String) (entries : List Entry) : List Entry :=
  entries.map (fillEntry executionRoot workspaceRoot)

@[simp] theorem resolve_length (executionRoot workspaceRoot : Option String)
    (entries : List Entry) :
    (resolve executionRoot workspaceRoot entries).length = entries.length := by
  simp [resolve]

end CompileCommands.Placeholder
