set_option autoImplicit false

/- What the program says about itself. -/
namespace CompileCommands.CommandLine

def programName : String := "compdbGenerate.py"

def versionLine : String := programName ++ " 1.0.0"

def usageLines : List String := [
  "usage: " ++ programName ++ " [-h] [--version] [-o OUTPUT] [--copt FLAG]",
  "                         [--cxxopt FLAG] [--execution-root DIR]",
  "                         [--workspace-root DIR] [-j JOBS] [--no-color]",
  "                         [--verbose]",
  "                         GRAPH.json TARGET [TARGET ...]"]

def helpLines : List String := usageLines ++ [
  "",
  "Generate a compile_commands.json from a build graph description.",
  "",
  "positional arguments:",
  "  GRAPH.json            Path to the build graph description",
  "  TARGET                Root target labels (e.g. //app:main)",
  "",
  "options:",
  "  -h, --help            show this help message and exit",
  "  --version             Show version and exit",
  "  -o OUTPUT, --output OUTPUT",
  "                        Output file (default: compile_commands.json)",
  "  --copt FLAG           Additional compile flag (repeatable)",
  "  --cxxopt FLAG         Additional C++ compile flag (repeatable)",
  "  --execution-root DIR  Replace the execution root placeholder with DIR",
  "  --workspace-root DIR  Replace the workspace placeholder with DIR",
  "  -j JOBS, --jobs JOBS  Number of threads used to synthesize commands",
  "                        (default: 1)",
  "  --no-color            Disable colored output",
  "  --verbose, -v         Enable verbose debug logging",
  "",
  "Targets outside the recognised C/C++/Objective-C rule kinds and targets of",
  "external repositories contribute no entries, but their dependencies are",
  "still visited.",
  "        "]

def usageErrorLine (reason : String) : String := programName ++ ": error: " ++ reason

end CompileCommands.CommandLine
