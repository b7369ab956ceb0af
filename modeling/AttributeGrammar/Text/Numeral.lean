import AttributeGrammar.Text.Basic
import AttributeGrammar.Fault

/-! Numerals: a run of digits, and an integer written by hand with a sign, blanks around it and
single underscores between its digits.
-/
namespace AttributeGrammar.Text

def valueOfDigits (digits : List Nat) : Nat := digits.foldl (fun value digit => value * 10 + digit) 0

/-- The value of a run of digits; leading zeros count towards the limit. -/
def natural (digits : List Nat) : Except Fault Nat :=
  if digits.length ≤ digitLimit then .ok (valueOfDigits digits)
  else .error (.numeralTooLong digits.length)

/-- Blanks allowed around an integer; the four separators of information are not. -/
def isNumeralBlank (c : Char) : Bool := isBlank c && !(0x1C ≤ c.toNat && c.toNat ≤ 0x1F)

/-- Digits with single underscores between them; `none` when an underscore stands elsewhere. -/
def digitsBetween (afterDigit : Bool) : List Char → Option (List Nat)
  | [] => if afterDigit then some [] else none
  | c :: rest =>
    if c = '_' then if afterDigit then digitsBetween false rest else none
    else (digitValue? c).bind fun digit => (digitsBetween true rest).map (digit :: ·)

def integer (text : String) : Except Fault Int :=
  let unpadded := text.toList.dropWhile isNumeralBlank
  let (negative, unsigned) := match unpadded with
    | '-' :: rest => (true, rest)
    | '+' :: rest => (false, rest)
    | rest => (false, rest)
  let inNumeral := fun c => c == '_' || (digitValue? c).isSome
  match digitsBetween false (unsigned.takeWhile inNumeral) with
  | none => .error (.notNumeral text)
  | some digits => do
    let value ← natural digits
    if (unsigned.dropWhile inNumeral).all isNumeralBlank then
      .ok (if negative then -value else value)
    else .error (.notNumeral text)

end AttributeGrammar.Text
