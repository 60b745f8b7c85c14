import CompileCommands.Json.Fault
import CompileCommands.Text.Blank
import CompileCommands.Text.Digits

set_option autoImplicit false

/- Whole numbers as arguments: decimal digits of any script with single underscores between them,
after an optional sign and among optional blanks. -/
namespace CompileCommands.CommandLine

/-- The information separators are blanks of texts but not of numbers. -/
def isNumberBlank (c : Char) : Bool :=
  Text.isBlank c && !(0x1C ≤ c.toNat && c.toNat ≤ 0x1F)

def withoutBlanks (text : List Char) : List Char :=
  ((text.dropWhile isNumberBlank).reverse.dropWhile isNumberBlank).reverse

/-- The values of digits that may have an underscore before each but the first. -/
def groupedDigits? (afterDigit : Bool) : List Char → Option (List Nat)
  | [] => if afterDigit then some [] else none
  | c :: rest =>
      if c = '_' then if afterDigit then groupedDigits? false rest else none
      else
        match Text.digitValue? c with
        | some digit => (groupedDigits? true rest).map (digit :: ·)
        | none => none

def naturalNumber? (text : List Char) : Option Nat :=
  match groupedDigits? false text with
  | some digits =>
      if Json.digitLimit < digits.length then none else some (Text.ofDigits digits)
  | none => none

def wholeNumber? (text : List Char) : Option Int :=
  match withoutBlanks text with
  | '-' :: rest => (naturalNumber? rest).map fun size => -(size : Int)
  | '+' :: rest => (naturalNumber? rest).map fun size => (size : Int)
  | text => (naturalNumber? text).map fun size => (size : Int)

/-- Arguments such as `-12` or `-.5` are values and not options. A line feed at the end does not
count. -/
def looksNegative (text : List Char) : Bool :=
  match text with
  | '-' :: size =>
      let size := if size.getLast? == some '\n' then size.dropLast else size
      let whole := size.takeWhile Text.isDigit
      match size.dropWhile Text.isDigit with
      | [] => !whole.isEmpty
      | '.' :: fraction => !fraction.isEmpty && fraction.all Text.isDigit
      | _ => false
  | _ => false

end CompileCommands.CommandLine
