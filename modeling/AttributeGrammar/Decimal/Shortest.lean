import AttributeGrammar.Decimal.Binary

/-! The fewest decimal digits that read back as the same number.
The numbers that round to a given one form an interval, whose ends belong to it when the mantissa is
even. For one digit, two digits and so on the two neighbours of the number on that decimal grid are
tried; the first grid with a neighbour in the interval wins, and of two neighbours the nearer.
-/
namespace AttributeGrammar
namespace Decimal

/-- Four times the number and the ends of its interval, in units of a quarter of the last bit. -/
structure Interval where
  low : Nat
  value : Nat
  high : Nat
  closed : Bool
deriving DecidableEq, Repr

def interval (mantissa : Nat) (exponent : Int) : Interval :=
  let narrow := mantissa = Nat.pow 2 52 ∧ exponent > Binary.leastExponent
  { low := 4 * mantissa - (if narrow then 1 else 2)
    value := 4 * mantissa
    high := 4 * mantissa + 2
    closed := mantissa % 2 = 0 }

/-- `number * unit` as a fraction, where the unit is a power of ten. -/
def tenfold (number : Nat) (power : Int) : Nat × Nat :=
  if 0 ≤ power then (number * Nat.pow 10 power.toNat, 1) else (number, Nat.pow 10 (-power).toNat)

def Interval.holds (bounds : Interval) (unit candidate : Nat × Nat) : Bool :=
  let scaledCandidate := candidate.1 * unit.2
  let scaledBound := fun bound : Nat => bound * unit.1 * candidate.2
  if bounds.closed then
    scaledBound bounds.low ≤ scaledCandidate && scaledCandidate ≤ scaledBound bounds.high
  else scaledBound bounds.low < scaledCandidate && scaledCandidate < scaledBound bounds.high

/-- The power of ten of the first digit. -/
def leadingPower (value : Nat × Nat) : Int :=
  Int.ofNat (Nat.toDigits 10 (value.1 * Nat.pow 10 400 / value.2)).length - 401

def gridChoice? (bounds : Interval) (unit : Nat × Nat) (power : Int) : Option Nat :=
  let number := (bounds.value * unit.1, unit.2)
  let grid := tenfold 1 power
  let below := number.1 * grid.2 / (number.2 * grid.1)
  let isInside := fun candidate => bounds.holds unit (tenfold candidate power)
  let twice := 2 * number.1 * grid.2
  let middle := (2 * below + 1) * (number.2 * grid.1)
  let nearer := if twice < middle ∨ (twice = middle ∧ below % 2 = 0) then below else below + 1
  let farther := if nearer = below then below + 1 else below
  if isInside nearer then some nearer else if isInside farther then some farther else none

def shortestFrom (bounds : Interval) (unit : Nat × Nat) : (tries : Nat) → Int → Nat × Int
  | 0, power => (((gridChoice? bounds unit power).getD 0), power)
  | tries + 1, power =>
    match gridChoice? bounds unit power with
    | some digits => (digits, power)
    | none => shortestFrom bounds unit tries (power - 1)

/-- The digits and the power of ten of the last one. -/
def shortest (mantissa : Nat) (exponent : Int) : Nat × Int :=
  let bounds := interval mantissa exponent
  let unit := Binary.scaled (1, 1) (exponent - 2)
  shortestFrom bounds unit 17 (leadingPower (bounds.value * unit.1, unit.2))

def withoutTrailingZeros : List Char → List Char := fun digits =>
  (digits.reverse.dropWhile (· == '0')).reverse

/-- Digits with the point after the first `point` of them; positional from 0.0001 up to below
10 ^ 16, otherwise with an exponent of at least two digits. -/
def layout (digits : List Char) (point : Int) : List Char :=
  if -4 < point ∧ point ≤ 16 then
    if point ≤ 0 then "0.".toList ++ List.replicate (-point).toNat '0' ++ digits
    else
      let whole := digits.take point.toNat
      let fraction := digits.drop point.toNat
      whole ++ List.replicate (point.toNat - whole.length) '0' ++ ['.'] ++
        (if fraction.isEmpty then ['0'] else fraction)
  else
    let power := point - 1
    let powerDigits := Nat.toDigits 10 power.natAbs
    let fraction := digits.drop 1
    digits.take 1 ++ (if fraction.isEmpty then [] else '.' :: fraction) ++
      ['e', if power < 0 then '-' else '+'] ++
      List.replicate (2 - powerDigits.length) '0' ++ powerDigits

end Decimal

namespace Binary

def text : Binary → String
  | notANumber => "nan"
  | infinite negative => if negative then "-inf" else "inf"
  | finite negative mantissa exponent =>
    let unsigned := if mantissa = 0 then "0.0".toList else
      let (number, power) := Decimal.shortest mantissa exponent
      let digits := Nat.toDigits 10 number
      Decimal.layout (Decimal.withoutTrailingZeros digits) (Int.ofNat digits.length + power)
    String.ofList (if negative then '-' :: unsigned else unsigned)

end Binary
end AttributeGrammar
