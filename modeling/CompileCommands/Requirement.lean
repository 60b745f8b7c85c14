import CompileCommands.OrderedMap
import CompileCommands.Terminal
import CompileCommands.Version

set_option autoImplicit false

/- Packages that have to be installed, each with the oldest version that will do. -/
namespace CompileCommands.Requirement

def leastVersions : Table String String :=
  [("networkx", "2.8.8"), ("packaging", "24.0"), ("colorama", "0.4.6")]

/-- What was found out about a package; `version` is the installed one, as it is spelled. -/
structure Status where
  isInstalled : Bool
  isRecent : Bool
  version : Option String
  deriving DecidableEq, Repr

inductive Fault where
  | noRequirement (package : String)
  | notInstalled (package least : String)
  | tooOld (package installed least : String)
  | version (fault : Version.Fault)
  deriving DecidableEq, Repr

def Fault.message : Fault → String
  | .noRequirement package => "No version requirement specified for " ++ package
  | .notInstalled package least =>
      package ++ " is not installed. Install with: pip install '" ++ package ++ ">=" ++ least ++ "'"
  | .tooOld package installed least =>
      package ++ " " ++ installed ++ " is too old. Version >=" ++ least ++
        " is required. Upgrade with: pip install --upgrade '" ++ package ++ ">=" ++ least ++ "'"
  | .version fault => fault.message

/-- How the numbers of versions are read and compared. -/
structure Scheme where
  Number : Type
  read : String → Except Version.Fault Number
  meets : Number → Number → Bool

variable (scheme : Scheme)

/-- Whether an installed version will do. The installed version is read first. -/
def isRecent (installed least : String) : Except Fault Bool :=
  match scheme.read installed with
  | .error fault => .error (.version fault)
  | .ok found =>
      match scheme.read least with
      | .error fault => .error (.version fault)
      | .ok needed => .ok (scheme.meets found needed)

/-- Looks at an installed package. The least version is the given one, or else the required one; a
package that will not do is a fault only if it is `mandatory`. -/
def check (required installed : Table String String) (package : String) (least : Option String)
    (mandatory : Bool) : Except Fault Status :=
  match least.orElse fun _ => required.find? package with
  | none => .error (.noRequirement package)
  | some least =>
      match installed.find? package with
      | none =>
          if mandatory then .error (.notInstalled package least) else .ok ⟨false, false, none⟩
      | some version =>
          match isRecent scheme version least with
          | .error fault => .error fault
          | .ok recent =>
              if !recent && mandatory then .error (.tooOld package version least)
              else .ok ⟨true, recent, some version⟩

/-- The outcome of insisting on a package: its versions, or what to tell the user. A version that
cannot be read is neither. -/
inductive Verdict where
  | satisfied (installed least : String)
  | refused (lines : List Terminal.Line)

def insist (required installed : Table String String) (coloured : Bool)
    (package purpose : String) : Except Version.Fault Verdict :=
  match required.find? package with
  | none =>
      .ok (.refused [Terminal.say coloured .error
        ("Unknown package '" ++ package ++ "' - no version requirement defined")])
  | some least =>
      match check scheme required installed package none true with
      | .ok status => .ok (.satisfied (status.version.getD "") least)
      | .error (.version fault) => .error fault
      | .error fault =>
          .ok (.refused [
            Terminal.say coloured .error (package ++ " is required for " ++ purpose ++ "."),
            .err fault.message])

/-- The usual numbers of versions. -/
def Scheme.usual : Scheme := ⟨Version, Version.parse, Version.meets⟩

end CompileCommands.Requirement
