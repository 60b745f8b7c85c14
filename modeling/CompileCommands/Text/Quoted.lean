import CompileCommands.Text.Hex
import CompileCommands.Text.Printable

set_option autoImplicit false

/- The quoted form of a text, which messages show: single quotes, unless the text holds a single
quote and no double one; a backslash before the quote in use and before a backslash; names for
the three common controls and numbers for everything else that is not printable. -/
namespace CompileCommands.Text

/-- The quote that needs the fewest escapes; a tie goes to the single quote. -/
def quoteMark (text : List Char) : Char :=
  if text.contains '\'' && !text.contains '"' then '"' else '\''

def quotedChar (mark c : Char) : List Char :=
  if c = mark || c = '\\' then ['\\', c]
  else if c = '\n' then ['\\', 'n']
  else if c = '\r' then ['\\', 'r']
  else if c = '\t' then ['\\', 't']
  else if isPrintable c then [c]
  else if c.toNat < 0x100 then '\\' :: 'x' :: hex 2 c.toNat
  else if c.toNat < 0x10000 then '\\' :: 'u' :: hex 4 c.toNat
  else '\\' :: 'U' :: hex 8 c.toNat

def quotedChars (text : List Char) : List Char :=
  let mark := quoteMark text
  mark :: text.flatMap (quotedChar mark) ++ [mark]

def quoted (text : String) : String := String.ofList (quotedChars text.toList)

end CompileCommands.Text
