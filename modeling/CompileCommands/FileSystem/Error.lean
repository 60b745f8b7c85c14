import CompileCommands.Text.Quoted

set_option autoImplicit false

/- What the operating system refuses or breaks off, and how it says so. -/
namespace CompileCommands.FileSystem

inductive ErrorCode where
  | noEntry
  | inputOutput
  | exists
  | notDirectory
  | isDirectory
  | fileTooLarge
  | noSpace
  | nameTooLong
  | quotaExceeded
  deriving DecidableEq, Repr

def ErrorCode.number : ErrorCode → Nat
  | .noEntry => 2
  | .inputOutput => 5
  | .exists => 17
  | .notDirectory => 20
  | .isDirectory => 21
  | .fileTooLarge => 27
  | .noSpace => 28
  | .nameTooLong => 36
  | .quotaExceeded => 122

def ErrorCode.description : ErrorCode → String
  | .noEntry => "No such file or directory"
  | .inputOutput => "Input/output error"
  | .exists => "File exists"
  | .notDirectory => "Not a directory"
  | .isDirectory => "Is a directory"
  | .fileTooLarge => "File too large"
  | .noSpace => "No space left on device"
  | .nameTooLong => "File name too long"
  | .quotaExceeded => "Disk quota exceeded"

/-- A refusal names the path as the caller gave it. Writing to a file that is open names none. -/
structure SystemError where
  code : ErrorCode
  path : Option String
  deriving DecidableEq, Repr

def SystemError.message (error : SystemError) : String :=
  "[Errno " ++ toString error.code.number ++ "] " ++ error.code.description ++
    match error.path with
    | some path => ": " ++ Text.quoted path
    | none => ""

end CompileCommands.FileSystem
