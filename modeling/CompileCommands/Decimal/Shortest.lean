import CompileCommands.Decimal.Binary64

set_option autoImplicit false

/- The shortest decimal of a double-precision number: the fewest significant digits that read
back as the number, and of several such decimals the nearest. A layout says how digits and
exponent become text. -/
namespace CompileCommands.Decimal

/-- A decimal `digits * 10 ^ exponent`. -/
structure Numeral where
  digits : Nat
  exponent : Int
  deriving DecidableEq, Repr

def digitCount (n : Nat) : Nat := (Nat.toDigits 10 n).length

/-- The exponent of the first digit of a positive fraction. -/
def leadingExponent (numerator denominator : Nat) : Int :=
  if denominator ≤ numerator then (digitCount (numerator / denominator) : Int) - 1
  else -(digitCount ((denominator + numerator - 1) / numerator - 1) : Int)

/-- The two decimals on the grid `10 ^ exponent` around a fraction, the nearer one first; of two
equally near ones, the even one. -/
def gridNeighbours (numerator denominator : Nat) (exponent : Int) : List Numeral :=
  let fraction := scaled 10 numerator denominator exponent
  let below := fraction.1 / fraction.2
  let nearest := roundQuotient fraction.1 fraction.2
  if nearest = below then [⟨below, exponent⟩, ⟨below + 1, exponent⟩]
  else [⟨below + 1, exponent⟩, ⟨below, exponent⟩]

/-- The first decimal that reads back, on grids that grow finer by one digit at a time. -/
def shortestFrom (significand : Nat) (binaryExponent : Int) (grid : Int) : Nat → Numeral
  | 0 => ⟨significand, binaryExponent⟩
  | finer + 1 =>
      let numerator := significand * Nat.pow 2 binaryExponent.toNat
      let denominator := Nat.pow 2 (-binaryExponent).toNat
      let readsBack (decimal : Numeral) : Bool :=
        Binary64.ofDecimal false decimal.digits decimal.exponent ==
          .finite false significand binaryExponent
      match (gridNeighbours numerator denominator grid).find? readsBack with
      | some decimal => decimal
      | none => shortestFrom significand binaryExponent (grid - 1) finer

/-- The shortest decimal of the positive number `significand * 2 ^ exponent`; seventeen digits
are always enough. -/
def shortest (significand : Nat) (exponent : Int) : Numeral :=
  let numerator := significand * Nat.pow 2 exponent.toNat
  let leading := leadingExponent numerator (Nat.pow 2 (-exponent).toNat)
  shortestFrom significand exponent leading 17

/-- The digits of a decimal without the zeros at their end, and the exponent of the first. -/
def Numeral.significant (decimal : Numeral) : List Char × Int :=
  let digits := Nat.toDigits 10 decimal.digits
  let kept := (digits.reverse.dropWhile (· == '0')).reverse
  (kept, decimal.exponent + digits.length - 1)

/-- How numbers are laid out: first digits with an exponent from `positionalFrom` up to, but not
including, `positionalBelow` are written without an exponent part. -/
structure Layout where
  positionalFrom : Int
  positionalBelow : Int
  exponentMark : Char
  exponentWidth : Nat
  infinity : String
  notANumber : String

def padded (width n : Nat) : List Char :=
  let digits := Nat.toDigits 10 n
  List.replicate (width - digits.length) '0' ++ digits

/-- Digits with a point among them; at least one digit stands on either side of it. -/
def Layout.positional (digits : List Char) (exponent : Int) : List Char :=
  if exponent < 0 then '0' :: '.' :: List.replicate ((-exponent).toNat - 1) '0' ++ digits
  else
    let whole := exponent.toNat + 1
    let fraction := digits.drop whole
    digits.take whole ++ List.replicate (whole - digits.length) '0' ++
      '.' :: (if fraction.isEmpty then ['0'] else fraction)

def Layout.scientific (layout : Layout) (digits : List Char) (exponent : Int) : List Char :=
  let fraction := digits.drop 1
  digits.take 1 ++ (if fraction.isEmpty then [] else '.' :: fraction) ++
    layout.exponentMark :: (if exponent < 0 then '-' else '+') ::
      padded layout.exponentWidth exponent.natAbs

def Layout.finite (layout : Layout) (significand : Nat) (exponent : Int) : List Char :=
  if significand = 0 then ['0', '.', '0']
  else
    let (digits, leading) := (shortest significand exponent).significant
    if layout.positionalFrom ≤ leading ∧ leading < layout.positionalBelow then
      Layout.positional digits leading
    else layout.scientific digits leading

def Layout.text (layout : Layout) : Binary64 → String
  | .finite negative significand exponent =>
      (if negative then "-" else "") ++ String.ofList (layout.finite significand exponent)
  | .infinite negative => (if negative then "-" else "") ++ layout.infinity
  | .notANumber => layout.notANumber

end CompileCommands.Decimal
