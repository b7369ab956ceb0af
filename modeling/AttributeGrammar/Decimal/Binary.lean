/-! Binary floating-point numbers of 53 bits, rounded from decimals in exact arithmetic.
-/
namespace AttributeGrammar

/-- A finite number is `mantissa * 2 ^ exponent`. Its mantissa has 53 bits unless the exponent is
the least one. -/
inductive Binary where
  | finite (negative : Bool) (mantissa : Nat) (exponent : Int)
  | infinite (negative : Bool)
  | notANumber
deriving DecidableEq, Repr

namespace Binary

def leastExponent : Int := -1074

def greatestExponent : Int := 971

/-- `numerator / denominator` rounded to a whole number, a half to the even neighbour. -/
def roundedQuotient (numerator denominator : Nat) : Nat :=
  let quotient := numerator / denominator
  let twice := 2 * (numerator % denominator)
  if twice < denominator ∨ (twice = denominator ∧ quotient % 2 = 0) then quotient else quotient + 1

/-- `value * 2 ^ shift` as a fraction of whole numbers. -/
def scaled (value : Nat × Nat) (shift : Int) : Nat × Nat :=
  if 0 ≤ shift then (value.1 * Nat.pow 2 shift.toNat, value.2)
  else (value.1, value.2 * Nat.pow 2 (-shift).toNat)

def ofFraction (negative : Bool) (value : Nat × Nat) : Binary :=
  let guess : Int := Int.ofNat value.1.log2 - Int.ofNat value.2.log2 - 52
  let quotientAt := fun exponent : Int => let part := scaled value (-exponent); part.1 / part.2
  let chosen := if quotientAt guess < Nat.pow 2 52 then guess - 1 else guess
  let exponent := max chosen leastExponent
  let part := scaled value (-exponent)
  let mantissa := roundedQuotient part.1 part.2
  let (mantissa, exponent) :=
    if mantissa = Nat.pow 2 53 then (Nat.pow 2 52, exponent + 1) else (mantissa, exponent)
  if exponent > greatestExponent then infinite negative else finite negative mantissa exponent

/-- The number nearest to `digits * 10 ^ power`; beyond the range of all numbers the powers of ten
are not computed. -/
def ofDecimal (negative : Bool) (digits : Nat) (power : Int) : Binary :=
  let magnitude := Int.ofNat (Nat.toDigits 10 digits).length + power
  if digits = 0 ∨ magnitude < -330 then finite negative 0 leastExponent
  else if magnitude > 320 then infinite negative
  else if 0 ≤ power then ofFraction negative (digits * Nat.pow 10 power.toNat, 1)
  else ofFraction negative (digits, Nat.pow 10 (-power).toNat)

end Binary
end AttributeGrammar
