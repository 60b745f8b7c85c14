import CompileCommands.Decimal.Shortest
import CompileCommands.Json.Value
import CompileCommands.Text.Quoted

set_option autoImplicit false

/- The literal form of a value, which messages show: quoted strings, whole numbers in full, other
numbers with their shortest digits, items and members separated by commas. -/
namespace CompileCommands.Json

/-- Numbers from 0.0001 up to 10^16 are written without an exponent part; exponents have a sign
and at least two digits. -/
def realLayout : Decimal.Layout where
  positionalFrom := -4
  positionalBelow := 16
  exponentMark := 'e'
  exponentWidth := 2
  infinity := "inf"
  notANumber := "nan"

namespace Value

mutual

def literal : Value → String
  | .null => "None"
  | .bool value => if value then "True" else "False"
  | .integer value => toString value
  | .real value => realLayout.text value
  | .string value => Text.quoted value
  | .array items => "[" ++ ", ".intercalate (itemLiterals items) ++ "]"
  | .object members => "\x7b" ++ ", ".intercalate (memberLiterals members) ++ "\x7d"

def itemLiterals : List Value → List String
  | [] => []
  | item :: rest => item.literal :: itemLiterals rest

def memberLiterals : List (String × Value) → List String
  | [] => []
  | (name, value) :: rest =>
      (Text.quoted name ++ ": " ++ value.literal) :: memberLiterals rest

end

/-- A value as text: a string is its own text, anything else is written as a literal. -/
def text : Value → String
  | .string value => value
  | value => value.literal

@[simp] theorem text_string (value : String) : (Value.string value).text = value := rfl

end Value

end CompileCommands.Json
