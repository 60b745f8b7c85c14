set_option autoImplicit false

/- What can be wrong with a JSON text, and where, and what can be too much of it. -/
namespace CompileCommands.Json

/-- What the decoder missed or met. -/
inductive Complaint where
  | value
  | propertyName
  | colon
  | comma
  | extraData
  | closingQuote
  | controlCharacter
  | escape
  | unicodeEscape
  | byteOrderMark
  deriving DecidableEq, Repr

def Complaint.message : Complaint → String
  | .value => "Expecting value"
  | .propertyName => "Expecting property name enclosed in double quotes"
  | .colon => "Expecting ':' delimiter"
  | .comma => "Expecting ',' delimiter"
  | .extraData => "Extra data"
  | .closingQuote => "Unterminated string starting at"
  | .controlCharacter => "Invalid control character at"
  | .escape => "Invalid \\escape"
  | .unicodeEscape => "Invalid \\uXXXX escape"
  | .byteOrderMark => "Unexpected UTF-8 BOM (decode using utf-8-sig)"

/-- A place in a text: lines and columns count from one, the offset from zero. -/
structure Location where
  line : Nat
  column : Nat
  offset : Nat
  deriving DecidableEq, Repr

/-- The place before the character with the given offset. Only line feeds end a line. -/
def locate (text : List Char) (offset : Nat) : Location where
  line := (text.take offset).count '\n' + 1
  column := ((text.take offset).reverse.takeWhile (· != '\n')).length + 1
  offset := offset

def malformedMessage (complaint : Complaint) (location : Location) : String :=
  complaint.message ++ ": line " ++ toString location.line ++ " column " ++
    toString location.column ++ " (char " ++ toString location.offset ++ ")"

/-- The most digits a whole number may have. -/
def digitLimit : Nat := 4300

def tooManyDigitsMessage (count : Nat) : String :=
  "Exceeds the limit (4300 digits) for integer string conversion: value has " ++
    toString count ++ " digits; use sys.set_int_max_str_digits() to increase the limit"

/-- The values that have others in them. -/
inductive Enclosure where
  | array
  | object
  deriving DecidableEq, Repr

def Enclosure.name : Enclosure → String
  | .array => "array"
  | .object => "object"

def tooDeepMessage (opened : Enclosure) : String :=
  "maximum recursion depth exceeded while decoding a JSON " ++ opened.name ++
    " from a unicode string"

/-- What there is too much of: the digits of a whole number, or the arrays and objects that are open
where one more of them opens. -/
inductive Excess where
  | digits (count : Nat)
  | depth (opened : Enclosure)
  deriving DecidableEq, Repr

def Excess.message : Excess → String
  | .digits count => tooManyDigitsMessage count
  | .depth opened => tooDeepMessage opened

/-- The name of the failure that an excess is. -/
def Excess.failureName : Excess → String
  | .digits _ => "ValueError"
  | .depth _ => "RecursionError"

inductive DecodeError where
  | malformed (complaint : Complaint) (location : Location)
  | exceeded (excess : Excess)
  deriving DecidableEq, Repr

def DecodeError.message : DecodeError → String
  | .malformed complaint location => malformedMessage complaint location
  | .exceeded excess => excess.message

end CompileCommands.Json
