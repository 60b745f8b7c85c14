set_option autoImplicit false

/- Entries of a compilation database: a command, the directory in which it runs and the file that
it compiles. Directories and files that depend on the machine are given by placeholders. -/
namespace CompileCommands

@[ext]
structure Entry where
  command : String
  directory : String
  file : String
  deriving DecidableEq, Repr

def executionRootPlaceholder : String := "__BAZEL_EXECUTION_ROOT__"

def workspacePlaceholder : String := "__BAZEL_WORKSPACE__"

end CompileCommands
