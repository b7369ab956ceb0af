import AttributeGrammar.Text.Basic
import AttributeGrammar.Text.Printable

/-! Quoted text: what is not printable is escaped, half a pair of units too, and the quote in use
and the backslash are preceded by a backslash.
-/
namespace AttributeGrammar.Text

/-- At least `width` hexadecimal digits, in small letters. -/
def hexadecimal (width number : Nat) : List Char :=
  let digits := Nat.toDigits 16 number
  List.replicate (width - digits.length) '0' ++ digits

/-- Single quotes, unless the text holds a single quote and no double one. -/
def quoteMark (text : List Char) : Char :=
  if text.contains '\'' && !text.contains '"' then '"' else '\''

def escapeQuoted (mark c : Char) : List Char :=
  if c == mark || c == '\\' then ['\\', c]
  else if c == '\t' then ['\\', 't']
  else if c == '\n' then ['\\', 'n']
  else if c == '\r' then ['\\', 'r']
  else if isPrintable c then [c]
  else if c.toNat < 0x100 then ['\\', 'x'] ++ hexadecimal 2 c.toNat
  else if c.toNat < 0x10000 then ['\\', 'u'] ++ hexadecimal 4 c.toNat
  else ['\\', 'U'] ++ hexadecimal 8 c.toNat

def escapePoint (mark : Char) : CodePoint → List Char
  | .character c => escapeQuoted mark c
  | .half place => ['\\', 'u'] ++ hexadecimal 4 (CodePoint.half place).number

def quotedPoints (points : List CodePoint) : String :=
  let mark := quoteMark (points.map CodePoint.shown)
  String.ofList (mark :: points.flatMap (escapePoint mark) ++ [mark])

def quoted (text : String) : String := quotedPoints (points text)

def quotedList (texts : List String) : String :=
  "[" ++ String.intercalate ", " (texts.map quoted) ++ "]"

end AttributeGrammar.Text
