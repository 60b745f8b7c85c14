import CompileCommands.Json.Fault
import CompileCommands.Json.Value
import CompileCommands.Text.Digits
import CompileCommands.Text.Hex

set_option autoImplicit false

/- The leaves of JSON: blanks, strings, numbers and the literal names. Each scanner reads from the
front of a text and gives back the rest, which is shorter than what it was given. A fault is told
by the number of characters that were left at its place. -/
namespace CompileCommands.Json

inductive Fault where
  | malformed (complaint : Complaint) (left : Nat)
  | exceeded (excess : Excess)
  deriving DecidableEq, Repr

def isSpace (c : Char) : Bool := c == ' ' || c == '\t' || c == '\n' || c == '\r'

def skipSpace (text : List Char) : List Char := text.dropWhile isSpace

theorem skipSpace_length_le (text : List Char) : (skipSpace text).length ≤ text.length :=
  (List.dropWhile_sublist isSpace).length_le

theorem length_lt_of_skipSpace {text rest : List Char} {c : Char}
    (found : skipSpace text = c :: rest) : rest.length < text.length := by
  have bound := skipSpace_length_le text
  rw [found, List.length_cons] at bound
  omega

/-- The characters written with a backslash and one letter. -/
def unescape? (c : Char) : Option Nat :=
  if c = '"' then some 0x22
  else if c = '\\' then some 0x5C
  else if c = '/' then some 0x2F
  else if c = 'b' then some 0x08
  else if c = 'f' then some 0x0C
  else if c = 'n' then some 0x0A
  else if c = 'r' then some 0x0D
  else if c = 't' then some 0x09
  else none

/-- Puts a unit in front of what was read after it. -/
def pushUnit (unit : Nat) :
    Except Fault (List Nat × List Char) → Except Fault (List Nat × List Char)
  | .error fault => .error fault
  | .ok (units, rest) => .ok (unit :: units, rest)

theorem pushUnit_eq_ok_iff (unit : Nat) (read : Except Fault (List Nat × List Char))
    (units : List Nat) (rest : List Char) :
    pushUnit unit read = .ok (units, rest) ↔
      ∃ later, read = .ok (later, rest) ∧ units = unit :: later := by
  match read with
  | .error fault => simp [pushUnit]
  | .ok (later, after) =>
      simp only [pushUnit, Except.ok.injEq, Prod.mk.injEq]
      constructor
      · rintro ⟨rfl, rfl⟩
        exact ⟨later, ⟨rfl, rfl⟩, rfl⟩
      · rintro ⟨_, ⟨rfl, rfl⟩, rfl⟩
        exact ⟨rfl, rfl⟩

/-- The code points and surrogates up to the closing quote, and the text after it. `opened` is the
whole text behind the opening quote; an escape by number may not be the last thing in a text. -/
def codeUnits (opened : List Char) : List Char → Except Fault (List Nat × List Char)
  | [] => .error (.malformed .closingQuote (opened.length + 1))
  | c :: rest =>
      if c = '"' then .ok ([], rest)
      else if c = '\\' then
        match rest with
        | [] => .error (.malformed .closingQuote (opened.length + 1))
        | letter :: rest =>
            if letter = 'u' then
              match rest with
              | a :: b :: c :: d :: rest =>
                  match Text.hexQuad? a b c d, rest.isEmpty with
                  | some unit, false => pushUnit unit (codeUnits opened rest)
                  | _, _ => .error (.malformed .unicodeEscape (rest.length + 5))
              | rest => .error (.malformed .unicodeEscape (rest.length + 1))
            else match unescape? letter with
              | some unit => pushUnit unit (codeUnits opened rest)
              | none => .error (.malformed .escape (rest.length + 2))
      else if c.toNat < 0x20 then .error (.malformed .controlCharacter (rest.length + 1))
      else pushUnit c.toNat (codeUnits opened rest)

theorem codeUnits_length_lt (opened text rest : List Char) (units : List Nat)
    (read : codeUnits opened text = .ok (units, rest)) : rest.length < text.length := by
  fun_induction codeUnits opened text generalizing units with
  | case2 => cases read; simp
  | case4 _ _ _ _ _ _ _ _ _ ih =>
      obtain ⟨later, read, _⟩ := (pushUnit_eq_ok_iff ..).mp read
      have shorter := ih later read
      simp only [List.length_cons]
      omega
  | case7 _ _ _ _ _ _ ih =>
      obtain ⟨later, read, _⟩ := (pushUnit_eq_ok_iff ..).mp read
      have shorter := ih later read
      simp only [List.length_cons]
      omega
  | case10 _ _ _ _ _ ih =>
      obtain ⟨later, read, _⟩ := (pushUnit_eq_ok_iff ..).mp read
      have shorter := ih later read
      simp only [List.length_cons]
      omega
  | _ => contradiction

def isHighSurrogate (unit : Nat) : Bool := 0xD800 ≤ unit && unit < 0xDC00

def isLowSurrogate (unit : Nat) : Bool := 0xDC00 ≤ unit && unit < 0xE000

/-- The code points of a string with these units: a pair of surrogates stands for one beyond 65535, and
a surrogate without its partner stands for itself. -/
def joinPairs : List Nat → List Nat
  | [] => []
  | high :: rest =>
      match rest with
      | [] => [high]
      | low :: rest =>
          if isHighSurrogate high && isLowSurrogate low then
            (0x10000 + (high - 0xD800) * 0x400 + (low - 0xDC00)) :: joinPairs rest
          else high :: joinPairs (low :: rest)

/-- Characters have no surrogates among them, for which the replacement character is taken. -/
def pointChar (point : Nat) : Char :=
  if isHighSurrogate point || isLowSurrogate point then '\uFFFD' else Char.ofNat point

/-- The text with these code points. -/
def pointsText (points : List Nat) : String := String.ofList (points.map pointChar)

/-- The string whose opening quote stands right before `text`. -/
def scanString (text : List Char) : Except Fault (String × List Char) :=
  match codeUnits text text with
  | .error fault => .error fault
  | .ok (units, rest) => .ok (pointsText (joinPairs units), rest)

theorem scanString_length_lt {text rest : List Char} {value : String}
    (read : scanString text = .ok (value, rest)) : rest.length < text.length := by
  unfold scanString at read
  split at read
  · contradiction
  · next units after found =>
      cases read
      exact codeUnits_length_lt _ _ _ units found

/-- A number as it is spelled. -/
structure NumberText where
  negative : Bool
  whole : List Char
  fraction : List Char
  exponent : Option Int

def takeDigits (text : List Char) : List Char × List Char :=
  (text.takeWhile Char.isDigit, text.dropWhile Char.isDigit)

theorem takeDigits_length_le (text : List Char) : (takeDigits text).2.length ≤ text.length :=
  (List.dropWhile_sublist Char.isDigit).length_le

def digitsValue (digits : List Char) : Nat :=
  Text.ofDigits (digits.map fun c => c.toNat - 0x30)

def scanWhole? : List Char → Option (List Char × List Char)
  | [] => none
  | c :: rest =>
      if c = '0' then some (['0'], rest)
      else if c.isDigit then some (c :: (takeDigits rest).1, (takeDigits rest).2)
      else none

theorem scanWhole?_length_lt {text whole rest : List Char}
    (read : scanWhole? text = some (whole, rest)) : rest.length < text.length := by
  unfold scanWhole? at read
  split at read
  · contradiction
  · next c after =>
      have bound := takeDigits_length_le after
      simp only [List.length_cons]
      split at read
      · cases read; omega
      · split at read
        · cases read; omega
        · contradiction

/-- A point counts only before a digit. -/
def scanFraction (text : List Char) : List Char × List Char :=
  match text with
  | '.' :: rest => if (takeDigits rest).1.isEmpty then ([], text) else takeDigits rest
  | _ => ([], text)

theorem scanFraction_length_le (text : List Char) :
    (scanFraction text).2.length ≤ text.length := by
  unfold scanFraction
  split
  · next rest =>
      have bound := takeDigits_length_le rest
      split <;> simp only [List.length_cons] <;> omega
  · exact Nat.le_refl _

def scanSign : List Char → Bool × List Char
  | '-' :: rest => (true, rest)
  | '+' :: rest => (false, rest)
  | text => (false, text)

theorem scanSign_length_le (text : List Char) : (scanSign text).2.length ≤ text.length := by
  unfold scanSign
  split <;> simp

/-- The letter of an exponent counts only before a digit, with or without a sign between. -/
def scanExponent (text : List Char) : Option Int × List Char :=
  match text with
  | [] => (none, [])
  | c :: rest =>
      if c = 'e' ∨ c = 'E' then
        let (negative, unsigned) := scanSign rest
        let (digits, rest) := takeDigits unsigned
        if digits.isEmpty then (none, text)
        else
          let size : Int := digitsValue digits
          (some (if negative then -size else size), rest)
      else (none, text)

theorem scanExponent_length_le (text : List Char) :
    (scanExponent text).2.length ≤ text.length := by
  unfold scanExponent
  split
  · simp
  · next c rest =>
      have unsigned := scanSign_length_le rest
      have bound := takeDigits_length_le (scanSign rest).2
      split
      · simp only
        split
        · simp
        · simp only [List.length_cons]; omega
      · simp

def scanMinus : List Char → Bool × List Char
  | '-' :: rest => (true, rest)
  | text => (false, text)

theorem scanMinus_length_le (text : List Char) : (scanMinus text).2.length ≤ text.length := by
  unfold scanMinus
  split <;> simp

def scanNumber? (text : List Char) : Option (NumberText × List Char) :=
  match scanWhole? (scanMinus text).2 with
  | none => none
  | some (whole, rest) =>
      let fraction := scanFraction rest
      let exponent := scanExponent fraction.2
      some (⟨(scanMinus text).1, whole, fraction.1, exponent.1⟩, exponent.2)

theorem scanNumber?_length_lt {text rest : List Char} {number : NumberText}
    (read : scanNumber? text = some (number, rest)) : rest.length < text.length := by
  unfold scanNumber? at read
  split at read
  · contradiction
  · next whole after found =>
      cases read
      have unsigned := scanMinus_length_le text
      have shorter := scanWhole?_length_lt found
      have fraction := scanFraction_length_le after
      have exponent := scanExponent_length_le (scanFraction after).2
      omega

/-- A number without fraction and exponent is a whole number, within the limit of digits. -/
def NumberText.value (number : NumberText) : Except Fault Value :=
  if number.fraction.isEmpty && number.exponent.isNone then
    if digitLimit < number.whole.length then
      .error (.exceeded (.digits number.whole.length))
    else
      let size : Int := digitsValue number.whole
      .ok (.integer (if number.negative then -size else size))
  else
    let digits := digitsValue (number.whole ++ number.fraction)
    let exponent := number.exponent.getD 0 - number.fraction.length
    .ok (.real (.ofDecimal number.negative digits exponent))

/-- The values with a name of their own. -/
def namedValues : List (List Char × Value) :=
  [("null".toList, .null), ("true".toList, .bool true), ("false".toList, .bool false),
    ("NaN".toList, .real .notANumber), ("Infinity".toList, .real (.infinite false)),
    ("-Infinity".toList, .real (.infinite true))]

def scanNamed? (text : List Char) : Option (Value × List Char) :=
  match namedValues.find? fun named => named.1.isPrefixOf text with
  | none => none
  | some named => some (named.2, text.drop named.1.length)

theorem scanNamed?_length_lt {text rest : List Char} {value : Value}
    (read : scanNamed? text = some (value, rest)) : rest.length < text.length := by
  unfold scanNamed? at read
  split at read
  · contradiction
  · next named found =>
      cases read
      have listed := List.mem_of_find?_eq_some found
      have first : named.1.isPrefixOf text = true := by
        simpa using List.find?_some found
      have bound := (List.isPrefixOf_iff_prefix.mp first).length_le
      have filled : 0 < named.1.length := by
        have every : ∀ entry ∈ namedValues, 0 < entry.1.length := by decide
        exact every named listed
      rw [List.length_drop]
      omega

end CompileCommands.Json
