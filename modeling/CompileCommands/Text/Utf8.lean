import CompileCommands.Text.Hex

set_option autoImplicit false

/- Text files are UTF-8, read strictly: the first byte that cannot be part of a character is a
fault, which says where the broken character starts, how many bytes of it were read and what is
wrong with it. Both older line ends are then read as a line feed. -/
namespace CompileCommands.Text.Utf8

inductive Reason where
  | startByte
  | continuationByte
  | truncated
  deriving DecidableEq, Repr

/-- A broken character: `span` bytes from `position` on, of which `first` is the first. -/
structure Fault where
  reason : Reason
  first : UInt8
  position : Nat
  span : Nat
  deriving DecidableEq, Repr

def Reason.message : Reason → String
  | .startByte => "invalid start byte"
  | .continuationByte => "invalid continuation byte"
  | .truncated => "unexpected end of data"

def Fault.message (fault : Fault) : String :=
  let place :=
    if fault.span = 1 then
      "byte 0x" ++ String.ofList (hex 2 fault.first.toNat) ++ " in position " ++
        toString fault.position
    else
      "bytes in position " ++ toString fault.position ++ "-" ++
        toString (fault.position + fault.span - 1)
  "'utf-8' codec can't decode " ++ place ++ ": " ++ fault.reason.message

def isTail (b : UInt8) : Bool := 0x80 ≤ b && b < 0xC0

/-- The second byte is narrowed for the first bytes that could spell a character in too many
bytes, a surrogate, or a number beyond the last code point. -/
def admitsSecond (first second : UInt8) : Bool :=
  isTail second &&
    (if first = 0xE0 then 0xA0 ≤ second
    else if first = 0xED then second < 0xA0
    else if first = 0xF0 then 0x90 ≤ second
    else if first = 0xF4 then second < 0x90
    else true)

def tailBits (b : UInt8) : Nat := b.toNat % 64

def decodeFrom (position : Nat) : List UInt8 → Except Fault (List Char)
  | [] => .ok []
  | a :: rest =>
      if a < 0x80 then
        (decodeFrom (position + 1) rest).map (Char.ofNat a.toNat :: ·)
      else if a < 0xC2 || 0xF5 ≤ a then .error ⟨.startByte, a, position, 1⟩
      else match rest with
        | [] => .error ⟨.truncated, a, position, 1⟩
        | b :: rest =>
            if !admitsSecond a b then .error ⟨.continuationByte, a, position, 1⟩
            else if a < 0xE0 then
              (decodeFrom (position + 2) rest).map
                (Char.ofNat (a.toNat % 32 * 64 + tailBits b) :: ·)
            else match rest with
              | [] => .error ⟨.truncated, a, position, 2⟩
              | c :: rest =>
                  if !isTail c then .error ⟨.continuationByte, a, position, 2⟩
                  else if a < 0xF0 then
                    (decodeFrom (position + 3) rest).map
                      (Char.ofNat ((a.toNat % 16 * 64 + tailBits b) * 64 + tailBits c) :: ·)
                  else match rest with
                    | [] => .error ⟨.truncated, a, position, 3⟩
                    | d :: rest =>
                        if !isTail d then .error ⟨.continuationByte, a, position, 3⟩
                        else
                          (decodeFrom (position + 4) rest).map (Char.ofNat
                            (((a.toNat % 8 * 64 + tailBits b) * 64 + tailBits c) * 64 +
                              tailBits d) :: ·)

def decode (bytes : List UInt8) : Except Fault (List Char) := decodeFrom 0 bytes

@[simp] theorem decode_nil : decode [] = .ok [] := rfl

/-- The bytes of a character. -/
def encodeChar (c : Char) : List UInt8 :=
  let n := c.toNat
  let tail (bits : Nat) : UInt8 := .ofNat (0x80 + bits % 64)
  if n < 0x80 then [.ofNat n]
  else if n < 0x800 then [.ofNat (0xC0 + n / 64), tail n]
  else if n < 0x10000 then [.ofNat (0xE0 + n / 4096), tail (n / 64), tail n]
  else [.ofNat (0xF0 + n / 262144), tail (n / 4096), tail (n / 64), tail n]

def encode (text : List Char) : List UInt8 := text.flatMap encodeChar

/-- A carriage return, with or without a line feed after it, is read as a line feed. -/
def unixLines : List Char → List Char
  | [] => []
  | '\r' :: '\n' :: rest => '\n' :: unixLines rest
  | '\r' :: rest => '\n' :: unixLines rest
  | c :: rest => c :: unixLines rest

theorem unixLines_eq_self (text : List Char) (plain : '\r' ∉ text) : unixLines text = text := by
  fun_induction unixLines text with
  | case1 => rfl
  | case2 rest ih => simp at plain
  | case3 rest _ ih => simp at plain
  | case4 c rest _ _ ih => simp_all

end CompileCommands.Text.Utf8
