import CompileCommands.Text.Utf8

set_option autoImplicit false

/- Paths: names separated by slashes, from the root or from the working directory. Places are lists
of names from the root on; the absolute form of a path takes its dots away without looking at the
file system. -/
namespace CompileCommands.FileSystem

/-- The parts of a text between slashes, the empty ones included. -/
def splitSlashes : List Char → List (List Char)
  | [] => [[]]
  | c :: rest =>
      if c = '/' then [] :: splitSlashes rest
      else
        match splitSlashes rest with
        | [] => [[c]]
        | part :: parts => (c :: part) :: parts

structure Path where
  text : String
  fromRoot : Bool
  names : List String
  slashAtEnd : Bool
  deriving DecidableEq, Repr

namespace Path

def ofText (text : String) : Path where
  text := text
  fromRoot := text.toList.head? == some '/'
  names := ((splitSlashes text.toList).filter (!·.isEmpty)).map String.ofList
  slashAtEnd := text.toList.getLast? == some '/'

def hasNull (path : Path) : Bool := path.text.toList.contains '\x00'

def isEmpty (path : Path) : Bool := path.text.isEmpty

def byteCount (text : String) : Nat := (Text.Utf8.encode text.toList).length

/-- No path may have this many bytes. -/
def byteLimit : Nat := 4096

def isTooLong (path : Path) : Bool := byteLimit ≤ byteCount path.text

/-- The place a path names when dots are taken away from left to right. -/
def simplify (place : List String) : List String → List String
  | [] => place
  | name :: rest =>
      if name = "." then simplify place rest
      else if name = ".." then simplify place.dropLast rest
      else simplify (place ++ [name]) rest

/-- The absolute place of a path seen from a working directory. -/
def absolute (path : Path) (workingDirectory : List String) : List String :=
  simplify (if path.fromRoot then [] else workingDirectory) path.names

/-- Every place on the way along some names. -/
def placesAlong (place : List String) : List String → List (List String)
  | [] => []
  | name :: rest => simplify place [name] :: placesAlong (simplify place [name]) rest

/-- Every place on the way of a path seen from a working directory. -/
def places (path : Path) (workingDirectory : List String) : List (List String) :=
  placesAlong (if path.fromRoot then [] else workingDirectory) path.names

/-- Two slashes at the front, but not more, are kept in the absolute form. -/
def root (path : Path) : String :=
  match path.text.toList with
  | '/' :: '/' :: '/' :: _ => "/"
  | '/' :: '/' :: _ => "//"
  | _ => "/"

end Path

/-- A place as text. -/
def placeText (root : String) (place : List String) : String := root ++ "/".intercalate place

/-- The longest name a directory can hold, in bytes. -/
def nameLimit : Nat := 255

def nameIsTooLong (name : String) : Bool := nameLimit < Path.byteCount name

end CompileCommands.FileSystem
