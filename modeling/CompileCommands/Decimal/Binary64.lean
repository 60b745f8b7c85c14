set_option autoImplicit false

/- Double-precision numbers as exact data, and the one nearest to a decimal: of two equally near
ones, that with the even significand. -/
namespace CompileCommands.Decimal

/-- A double-precision number; a finite one is `significand * 2 ^ exponent` up to its sign. -/
inductive Binary64 where
  | finite (negative : Bool) (significand : Nat) (exponent : Int)
  | infinite (negative : Bool)
  | notANumber
  deriving DecidableEq, Repr, Inhabited

/-- The natural number nearest to a fraction; a half goes to the even neighbour. -/
def roundQuotient (numerator denominator : Nat) : Nat :=
  let quotient := numerator / denominator
  let remainder := numerator % denominator
  if 2 * remainder < denominator then quotient
  else if denominator < 2 * remainder then quotient + 1
  else quotient + quotient % 2

/-- The fraction `numerator / denominator` over `base ^ exponent`. -/
def scaled (base numerator denominator : Nat) (exponent : Int) : Nat × Nat :=
  (numerator * Nat.pow base (-exponent).toNat, denominator * Nat.pow base exponent.toNat)

namespace Binary64

def leastExponent : Int := -1074

def greatestExponent : Int := 971

/-- The least significand of 53 bits. -/
def leastNormal : Nat := 4503599627370496

def zero (negative : Bool) : Binary64 := .finite negative 0 leastExponent

def isZero : Binary64 → Bool
  | .finite _ significand _ => significand == 0
  | _ => false

/-- The number nearest to a positive fraction. Its exponent is the one for which the significand
has 53 bits, or the least one. -/
def ofFraction (negative : Bool) (numerator denominator : Nat) : Binary64 :=
  let guess : Int := (numerator.log2 : Int) - denominator.log2 - 52
  let coarse := scaled 2 numerator denominator guess
  let fitted := if coarse.1 / coarse.2 < leastNormal then guess - 1 else guess
  let exponent := max leastExponent fitted
  let fraction := scaled 2 numerator denominator exponent
  let significand := roundQuotient fraction.1 fraction.2
  let carried := significand == 2 * leastNormal
  let significand := if carried then leastNormal else significand
  let exponent := if carried then exponent + 1 else exponent
  if greatestExponent < exponent then .infinite negative
  else .finite negative significand exponent

/-- The number nearest to `digits * 10 ^ exponent`. Decimals far outside the range need no exact
arithmetic. -/
def ofDecimal (negative : Bool) (digits : Nat) (exponent : Int) : Binary64 :=
  let magnitude := (Nat.toDigits 10 digits).length + exponent
  if digits == 0 || magnitude < -400 then zero negative
  else if 400 < magnitude then .infinite negative
  else ofFraction negative (digits * Nat.pow 10 exponent.toNat) (Nat.pow 10 (-exponent).toNat)

end Binary64

end CompileCommands.Decimal
