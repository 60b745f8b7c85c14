import CompileCommands.Description
import CompileCommands.Entry
import CompileCommands.Json.Ascii

set_option autoImplicit false

/- Compilation databases: a JSON array with one entry per line, in ASCII. Every list of entries has
one written form; reading accepts any spelling of it as JSON. -/
namespace CompileCommands.Database

open Json (Headroom Value Members)

def entryChars (entry : Entry) : List Char :=
  "\x7b\"command\": ".toList ++ Json.asciiString entry.command.toList ++
    ", \"directory\": ".toList ++ Json.asciiString entry.directory.toList ++
    ", \"file\": ".toList ++ Json.asciiString entry.file.toList ++ ['}']

/-- The entries, each but the last with a comma after it and each but the first on a line that
starts with a space. -/
def bodyChars : List Entry → List Char
  | [] => []
  | [entry] => entryChars entry
  | entry :: rest => entryChars entry ++ [',', '\n', ' '] ++ bodyChars rest

def chars (entries : List Entry) : List Char :=
  ['[', '\n'] ++ bodyChars entries ++ ['\n', ']', '\n']

def entryText (entry : Entry) : String := String.ofList (entryChars entry)

def text (entries : List Entry) : String := String.ofList (chars entries)

def fieldNames : List String := ["command", "directory", "file"]

def fieldText (index : Nat) (members : Members) (name : String) : Except DatabaseFault String :=
  match members.find? name with
  | some (.string value) => .ok value
  | _ => .error (.fieldNotString index name)

/-- An entry has exactly the three fields, in any order, and all of them are strings. -/
def entryOfValue (index : Nat) : Value → Except DatabaseFault Entry
  | .object members =>
      if Text.sorted (Table.keys members) = fieldNames then do
        let command ← fieldText index members "command"
        let directory ← fieldText index members "directory"
        let file ← fieldText index members "file"
        return ⟨command, directory, file⟩
      else .error (.entryFields index (Table.keys members))
  | _ => .error (.entryNotObject index)

/-- The entries from the one with the given index on. -/
def entriesOfValues (index : Nat) : List Value → Except DatabaseFault (List Entry)
  | [] => .ok []
  | value :: rest =>
      match entryOfValue index value with
      | .error fault => .error fault
      | .ok entry =>
          match entriesOfValues (index + 1) rest with
          | .error fault => .error fault
          | .ok entries => .ok (entry :: entries)

def ofValue : Value → Except DatabaseFault (List Entry)
  | .array values => entriesOfValues 0 values
  | _ => .error .notArray

def ofChars (headroom : Headroom) (text : List Char) : Except Failure (List Entry) :=
  match Json.decode headroom text with
  | .ok value => (ofValue value).mapError .database
  | .error (.malformed complaint location) => .error (.database (.malformed complaint location))
  | .error (.exceeded excess) => .error (.exceeded excess)

def parse (headroom : Headroom) (text : String) : Except Failure (List Entry) :=
  ofChars headroom text.toList

def load (headroom : Headroom) (files : FileSystem) (path : String) :
    Except Failure (List Entry) :=
  match files.readFile (.ofText path) with
  | .error .nullInPath => .error .nullInPath
  | .error (.refused error) => .error (.database (.unreadable path error))
  | .ok bytes => (Description.fileText bytes).bind (ofChars headroom)

/-- Writes a database; the answer is the number of entries. -/
def write (disk : FileSystem.Disk) (files : FileSystem) (path : String) (entries : List Entry) :
    FileSystem × Except Failure Nat :=
  match files.writeFile disk (.ofText path) (Text.Utf8.encode (chars entries)) with
  | (files, .ok ()) => (files, .ok entries.length)
  | (files, .error .nullInPath) => (files, .error .nullInPath)
  | (files, .error (.refused error)) => (files, .error (.database (.unwritable path error)))

end CompileCommands.Database
