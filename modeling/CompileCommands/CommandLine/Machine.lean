import CompileCommands.FileSystem
import CompileCommands.Json.Decoder
import CompileCommands.Requirement

set_option autoImplicit false

/- What a run finds on its machine beside the files. -/
namespace CompileCommands.CommandLine

/-- The installed packages and how their versions are compared, the room there is for arrays and objects
within each other, the disk, and what takes the lines of standard output. -/
structure Machine where
  installed : Table String String
  versions : Requirement.Scheme := .usual
  headroom : Json.Headroom := .usual
  disk : FileSystem.Disk := .sound
  screen : Terminal.Screen := .willing

/-- A machine that takes all that is written and all that is printed. -/
structure Machine.IsSteady (machine : Machine) : Prop where
  sound : machine.disk.IsSound
  willing : machine.screen.IsWilling

end CompileCommands.CommandLine
