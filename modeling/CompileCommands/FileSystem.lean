import CompileCommands.FileSystem.Error
import CompileCommands.FileSystem.Path
import CompileCommands.OrderedMap

set_option autoImplicit false

/- A file system as a value: regular files with their bytes and directories, by their places. Files
are read whole; they are written after the directories on the way to them are made, and whole unless the
disk breaks off. -/
namespace CompileCommands

namespace FileSystem

inductive Node where
  | file (bytes : List UInt8)
  | directory
  deriving DecidableEq, Repr

/-- Why a file could not be used. A path with a null character is no path at all. -/
inductive AccessError where
  | nullInPath
  | refused (error : SystemError)
  deriving DecidableEq, Repr

end FileSystem

/-- The working directory and the directories around it are always there. -/
structure FileSystem where
  workingDirectory : List String
  nodes : Table (List String) FileSystem.Node
  deriving DecidableEq, Repr

namespace FileSystem

def node? (files : FileSystem) (place : List String) : Option Node :=
  if place.isPrefixOf files.workingDirectory then some .directory else files.nodes.find? place

def put (files : FileSystem) (place : List String) (node : Node) : FileSystem :=
  { files with nodes := files.nodes.insert place node }

/-- The content of the regular file at a place. -/
def content? (files : FileSystem) (place : List String) : Option (List UInt8) :=
  match files.node? place with
  | some (.file bytes) => some bytes
  | _ => none

/-- Goes from a place along names: the place reached, and what is there. Every name but the last
has to be that of a directory. -/
def follow (files : FileSystem) (place : List String) :
    List String → Except ErrorCode (List String × Option Node)
  | [] => .ok (place, files.node? place)
  | name :: rest =>
      match files.node? place with
      | none => .error .noEntry
      | some (.file _) => .error .notDirectory
      | some .directory =>
          if name = "." then follow files place rest
          else if name = ".." then follow files place.dropLast rest
          else if nameIsTooLong name then .error .nameTooLong
          else follow files (place ++ [name]) rest

def origin (files : FileSystem) (path : Path) : List String :=
  if path.fromRoot then [] else files.workingDirectory

/-- The regular file that a path names. A slash at the end asks for a directory. -/
def locateFile (files : FileSystem) (path : Path) : Except ErrorCode (List UInt8) :=
  if path.isEmpty then .error .noEntry
  else if path.isTooLong then .error .nameTooLong
  else
    match files.follow (files.origin path) path.names with
    | .error code => .error code
    | .ok (_, none) => .error .noEntry
    | .ok (_, some .directory) => .error .isDirectory
    | .ok (_, some (.file bytes)) => if path.slashAtEnd then .error .notDirectory else .ok bytes

def isFile (files : FileSystem) (path : Path) : Bool :=
  !path.hasNull && (files.locateFile path).isOk

def readFile (files : FileSystem) (path : Path) : Except AccessError (List UInt8) :=
  if path.hasNull then .error .nullInPath
  else (files.locateFile path).mapError fun code => .refused ⟨code, some path.text⟩

/-- The place where a path opened for writing puts its file. -/
def locateForWriting (files : FileSystem) (path : Path) : Except ErrorCode (List String) :=
  if path.isEmpty then .error .noEntry
  else if path.isTooLong then .error .nameTooLong
  else if path.slashAtEnd then
    match files.follow (files.origin path) path.names.dropLast with
    | .error code => .error code
    | .ok (_, none) => .error .noEntry
    | .ok (_, some (.file _)) => .error .notDirectory
    | .ok (_, some .directory) => .error .isDirectory
  else
    match files.follow (files.origin path) path.names with
    | .error code => .error code
    | .ok (_, some .directory) => .error .isDirectory
    | .ok (place, _) => .ok place

/-- Makes a directory within a place. Errors name its absolute place, as text after `root`. -/
def makeDirectory (files : FileSystem) (root : String) (place : List String) (name : String) :
    Except AccessError FileSystem :=
  let here := place ++ [name]
  let refused (code : ErrorCode) : Except AccessError FileSystem :=
    .error (.refused ⟨code, some (placeText root here)⟩)
  if name.toList.contains '\x00' then .error .nullInPath
  else if Path.byteLimit ≤ Path.byteCount (placeText root here) then refused .nameTooLong
  else
    match files.node? place with
    | none => refused .noEntry
    | some (.file _) => refused .notDirectory
    | some .directory =>
        if nameIsTooLong name then refused .nameTooLong
        else if (files.node? here).isSome then refused .exists
        else .ok (files.put here .directory)

/-- Makes the directories along `names` below the directory `place`; those made before a failure
stay. What is there already is passed over, but the last name has to be that of a directory. -/
def makeDirectories (root : String) (place : List String) (files : FileSystem) :
    List String → FileSystem × Except AccessError Unit
  | [] => (files, .ok ())
  | name :: rest =>
      let here := place ++ [name]
      let found := files.node? here
      if found = some .directory || (found.isSome && !rest.isEmpty) then
        makeDirectories root here files rest
      else
        match files.makeDirectory root place name with
        | .error error => (files, .error error)
        | .ok files => makeDirectories root here files rest

/-- How a disk takes the bytes that are written at a place: all of them, or only so many before it
breaks off. -/
structure Disk where
  breaksOff? : List String → List UInt8 → Option (Nat × ErrorCode)

/-- A disk that takes everything. -/
def Disk.sound : Disk := ⟨fun _ _ => none⟩

def Disk.IsSound (disk : Disk) : Prop := ∀ place bytes, disk.breaksOff? place bytes = none

/-- Writes a file, making the directory of its absolute place first. A file that is there is emptied
when it is opened, so what the disk takes of the bytes is all that is in it afterwards. -/
def writeFile (files : FileSystem) (disk : Disk) (path : Path) (bytes : List UInt8) :
    FileSystem × Except AccessError Unit :=
  let directory := (path.absolute files.workingDirectory).dropLast
  match files.makeDirectories path.root [] directory with
  | (files, .error error) => (files, .error error)
  | (files, .ok ()) =>
      if path.hasNull then (files, .error .nullInPath)
      else
        match files.locateForWriting path with
        | .error code => (files, .error (.refused ⟨code, some path.text⟩))
        | .ok place =>
            match disk.breaksOff? place bytes with
            | none => (files.put place (.file bytes), .ok ())
            | some (kept, code) =>
                (files.put place (.file (bytes.take kept)), .error (.refused ⟨code, none⟩))

end FileSystem

end CompileCommands
