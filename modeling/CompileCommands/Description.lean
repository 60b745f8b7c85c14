import CompileCommands.Failure
import CompileCommands.FileSystem
import CompileCommands.Json.Decoder

set_option autoImplicit false

/- Description files: UTF-8 text with one JSON object, read from a file system. -/
namespace CompileCommands.Description

open Json (Headroom Value Members)

/-- The text of a file, with line feeds at the ends of its lines. -/
def fileText (bytes : List UInt8) : Except Failure (List Char) :=
  match Text.Utf8.decode bytes with
  | .ok text => .ok (Text.Utf8.unixLines text)
  | .error fault => .error (.encoding fault)

def ofText (headroom : Headroom) (path : String) (text : List Char) : Except Failure Members :=
  match Json.decode headroom text with
  | .ok (.object members) => .ok members
  | .ok _ => .error (.description (.notObject path))
  | .error (.malformed complaint location) =>
      .error (.description (.malformed path complaint location))
  | .error (.exceeded excess) => .error (.exceeded excess)

def load (headroom : Headroom) (files : FileSystem) (path : String) : Except Failure Members :=
  if files.isFile (.ofText path) then
    match files.readFile (.ofText path) with
    | .ok bytes => (fileText bytes).bind (ofText headroom path)
    | .error _ => .error (.description (.notFound path))
  else .error (.description (.notFound path))

end CompileCommands.Description
