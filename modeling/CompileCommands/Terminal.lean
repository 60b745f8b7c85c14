set_option autoImplicit false

/- Coloured text on a terminal, and the four sorts of messages the program prints. -/
namespace CompileCommands.Terminal

inductive Code where
  | red
  | green
  | yellow
  | blue
  | cyan
  | white
  | reset
  | bright
  | dim
  | normal
  deriving DecidableEq, Repr

def Code.number : Code → Nat
  | .red => 31
  | .green => 32
  | .yellow => 33
  | .blue => 34
  | .cyan => 36
  | .white => 37
  | .reset => 0
  | .bright => 1
  | .dim => 2
  | .normal => 22

/-- The escape sequence of a code; none if colours are off. -/
def escape (coloured : Bool) (code : Code) : String :=
  if coloured then "\x1b[" ++ toString code.number ++ "m" else ""

/-- A text in a colour and style, back to normal at its end. A style alone changes nothing. -/
def painted (coloured : Bool) (text : String) (colour style : Option Code) : String :=
  match colour with
  | some colour =>
      if coloured then
        ((style.map (escape true)).getD "") ++ escape true colour ++ text ++ escape true .reset
      else text
  | none => text

inductive Level where
  | success
  | error
  | warning
  | info
  deriving DecidableEq, Repr

def Level.colour : Level → Code
  | .success => .green
  | .error => .red
  | .warning => .yellow
  | .info => .cyan

/-- What stands before a message that says its level. -/
def Level.heading : Level → String
  | .success => "Success: "
  | .error => "Error: "
  | .warning => "Warning: "
  | .info => ""

/-- Errors and warnings say their level unless they are asked not to. -/
def Level.isHeaded : Level → Bool
  | .error | .warning => true
  | .success | .info => false

/-- A line of text for standard output or for standard error. -/
inductive Line where
  | out (text : String)
  | err (text : String)
  deriving DecidableEq, Repr

def message (coloured : Bool) (level : Level) (headed : Bool) (text : String) : String :=
  painted coloured (if headed then level.heading ++ text else text) (some level.colour) none

/-- Errors and warnings go to standard error, the other messages to standard output. -/
def Level.line (level : Level) (text : String) : Line :=
  match level with
  | .error | .warning => .err text
  | .success | .info => .out text

def say (coloured : Bool) (level : Level) (text : String) : Line :=
  level.line (message coloured level level.isHeaded text)

/-- Colours are used on a terminal unless they are refused, by an option or by an environment
variable that is set to something; forcing them overrules all but the option. -/
def usesColour (isTerminal forced refused : Bool) (noColour : Option String) : Bool :=
  !refused && (forced || (isTerminal && (noColour.getD "").isEmpty))

def outText (lines : List Line) : String :=
  String.join (lines.map fun
    | .out text => text ++ "\n"
    | .err _ => "")

def errText (lines : List Line) : String :=
  String.join (lines.map fun
    | .out _ => ""
    | .err text => text ++ "\n")

/-- Why a text could not be printed, by the name of the failure and its message. -/
structure Refusal where
  name : String
  message : String
  deriving DecidableEq, Repr

/-- What takes the lines of standard output. It can refuse a text, for a character that it has no
spelling for or since it is gone; colours make no difference to that. Standard error has a spelling for
everything. -/
structure Screen where
  refusal? : String → Option Refusal

/-- A screen that takes everything. -/
def Screen.willing : Screen := ⟨fun _ => none⟩

def Screen.IsWilling (screen : Screen) : Prop := ∀ text, screen.refusal? text = none

end CompileCommands.Terminal
