import CompileCommands.Text.Hex

set_option autoImplicit false

/- Strings written as JSON in printable ASCII: characters outside of it become numbered escapes,
those beyond the first 65536 code points as a pair of surrogates. -/
namespace CompileCommands.Json

def unitEscape (unit : Nat) : List Char := '\\' :: 'u' :: Text.hex 4 unit

def asciiChar (c : Char) : List Char :=
  if c = '"' ∨ c = '\\' then ['\\', c]
  else if c = '\n' then ['\\', 'n']
  else if c = '\r' then ['\\', 'r']
  else if c = '\t' then ['\\', 't']
  else if c = '\x08' then ['\\', 'b']
  else if c = '\x0c' then ['\\', 'f']
  else if 0x20 ≤ c.toNat ∧ c.toNat ≤ 0x7E then [c]
  else if c.toNat < 0x10000 then unitEscape c.toNat
  else
    let offset := c.toNat - 0x10000
    unitEscape (0xD800 + offset / 0x400) ++ unitEscape (0xDC00 + offset % 0x400)

def asciiString (text : List Char) : List Char := '"' :: text.flatMap asciiChar ++ ['"']

end CompileCommands.Json
