import CompileCommands.Decimal.Binary64
import CompileCommands.OrderedMap

set_option autoImplicit false

/- JSON values. Whole numbers are exact and kept apart from numbers with a fraction or an exponent;
the members of an object have distinct names, in the order in which the names were first seen. -/
namespace CompileCommands.Json

inductive Value where
  | null
  | bool (value : Bool)
  | integer (value : Int)
  | real (value : Decimal.Binary64)
  | string (value : String)
  | array (items : List Value)
  | object (members : List (String × Value))
  deriving Repr, Inhabited

abbrev Members := Table String Value

namespace Value

/-- The values that count as absent: null, false, zero, and everything empty. -/
def isFalsy : Value → Bool
  | .null => true
  | .bool value => !value
  | .integer value => value == 0
  | .real value => value.isZero
  | .string value => value.isEmpty
  | .array items => items.isEmpty
  | .object members => members.isEmpty

/-- The name of a value's type, as messages give it. -/
def typeName : Value → String
  | .null => "NoneType"
  | .bool _ => "bool"
  | .integer _ => "int"
  | .real _ => "float"
  | .string _ => "str"
  | .array _ => "list"
  | .object _ => "dict"

def string? : Value → Option String
  | .string value => some value
  | _ => none

/-- The strings of a list that holds nothing else. -/
def strings? : Value → Option (List String)
  | .array items => items.mapM string?
  | _ => none

end Value

theorem strings?_array (texts : List String) :
    (Value.array (texts.map .string)).strings? = some texts := by
  simp only [Value.strings?]
  induction texts with
  | nil => rfl
  | cons text rest ih => simp [Value.string?, ih]

end CompileCommands.Json
