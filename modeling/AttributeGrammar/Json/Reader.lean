import AttributeGrammar.Json.Value
import AttributeGrammar.Text.Numeral

/-! Reading JSON texts.
`NaN` and the infinities count as numbers; a name that comes again replaces the value of its first
place; control characters within texts are refused, and an integer has a limited number of digits.
Collections nest only so far, which is found out as soon as one level too many opens.
-/
namespace AttributeGrammar.Json
open Text

def isSpace (c : Char) : Bool := c == ' ' || c == '\t' || c == '\n' || c == '\r'

def skipSpace (text : List Char) : List Char := text.dropWhile isSpace

def hexValue? (c : Char) : Option Nat :=
  if '0' ≤ c && c ≤ '9' then some (c.toNat - 0x30)
  else if 'a' ≤ c && c ≤ 'f' then some (c.toNat - 0x57)
  else if 'A' ≤ c && c ≤ 'F' then some (c.toNat - 0x37)
  else none

def unitValue? (a b c d : Char) : Option Nat := do
  pure ((← hexValue? a) * 0x1000 + (← hexValue? b) * 0x100 + (← hexValue? c) * 0x10 +
    (← hexValue? d))

def escaped? : Char → Option Char
  | '"' => some '"'
  | '\\' => some '\\'
  | '/' => some '/'
  | 'b' => some '\x08'
  | 'f' => some '\x0c'
  | 'n' => some '\n'
  | 'r' => some '\r'
  | 't' => some '\t'
  | _ => none

def isHighSurrogate (unit : Nat) : Bool := 0xD800 ≤ unit && unit < 0xDC00

def isLowSurrogate (unit : Nat) : Bool := 0xDC00 ≤ unit && unit < 0xE000

def unitPoint (unit : Nat) : CodePoint :=
  if isHighSurrogate unit || isLowSurrogate unit then .half (Fin.ofNat 0x800 (unit - 0xD800))
  else .character (Char.ofNat unit)

def pairPoint (high low : Nat) : CodePoint :=
  .character (Char.ofNat (0x10000 + (high - 0xD800) * 0x400 + (low - 0xDC00)))

abbrev Read (Value : Type) := Except Fault (Value × List Char)

def Read.put (point : CodePoint) : Read (List CodePoint) → Read (List CodePoint) :=
  Except.map fun read => (point :: read.1, read.2)

/-- The code points of a text up to its closing quote. `high` is the first half of a pair of units
that was read last, if the second may follow. -/
def readText (high : Option Nat) : List Char → Read (List CodePoint)
  | '\\' :: 'u' :: a :: b :: c :: d :: rest =>
    match unitValue? a b c d with
    | none => .error .notJson
    | some unit =>
      match high with
      | some first =>
        if isLowSurrogate unit then (readText none rest).put (pairPoint first unit)
        else if isHighSurrogate unit then (readText (some unit) rest).put (unitPoint first)
        else ((readText none rest).put (unitPoint unit)).put (unitPoint first)
      | none =>
        if isHighSurrogate unit then readText (some unit) rest
        else (readText none rest).put (unitPoint unit)
  | '\\' :: c :: rest =>
    match escaped? c with
    | none => .error .notJson
    | some meant => flush ((readText none rest).put (.character meant))
  | '"' :: rest => flush (.ok ([], rest))
  | c :: rest =>
    if c.toNat < 0x20 then .error .notJson else flush ((readText none rest).put (.character c))
  | [] => .error .notJson
where
  flush (read : Read (List CodePoint)) : Read (List CodePoint) :=
    match high with
    | some first => read.put (unitPoint first)
    | none => read

def digitsOf (digits : List Char) : List Nat := digits.filterMap digitValue?

def isDecimalDigit (c : Char) : Bool := '0' ≤ c && c ≤ '9'

/-- The whole part: a lone zero, or digits that begin with another one. -/
def wholePart : List Char → Option (List Char × List Char)
  | '0' :: rest => some (['0'], rest)
  | c :: rest =>
    if isDecimalDigit c then some ((c :: rest).takeWhile isDecimalDigit, rest.dropWhile isDecimalDigit)
    else none
  | [] => none

def fractionPart (text : List Char) : Option (List Char × List Char) :=
  match text with
  | '.' :: rest =>
    let digits := rest.takeWhile isDecimalDigit
    if digits.isEmpty then none else some (digits, rest.dropWhile isDecimalDigit)
  | _ => none

def exponentPart (text : List Char) : Option (Int × List Char) :=
  let signed := fun rest : List Char => match rest with
    | '-' :: more => (true, more)
    | '+' :: more => (false, more)
    | more => (false, more)
  match text with
  | [] => none
  | c :: rest =>
    let (negative, more) := signed rest
    let digits := more.takeWhile isDecimalDigit
    if (c == 'e' || c == 'E') && !digits.isEmpty then
      let power := Int.ofNat (valueOfDigits (digitsOf digits))
      some (if negative then -power else power, more.dropWhile isDecimalDigit)
    else none

def readNumber (negative : Bool) (text : List Char) : Read Json :=
  match wholePart text with
  | none => .error .notJson
  | some (whole, afterWhole) =>
    let fraction? := fractionPart afterWhole
    let afterFraction := match fraction? with
      | some (_, rest) => rest
      | none => afterWhole
    match fraction?, exponentPart afterFraction with
    | none, none => (natural (digitsOf whole)).map fun value =>
      (int (if negative then -value else value), afterWhole)
    | fraction?, exponent? =>
      let fraction := (fraction?.map Prod.fst).getD []
      let power := (exponent?.map Prod.fst).getD 0 - fraction.length
      let rest := (exponent?.map Prod.snd).getD afterFraction
      .ok (real (.ofDecimal negative (valueOfDigits (digitsOf (whole ++ fraction))) power), rest)

def dropPrefix? (word text : List Char) : Option (List Char) :=
  if word.isPrefixOf text then some (text.drop word.length) else none

def words : List (List Char × Json) :=
  [("null".toList, null), ("true".toList, bool true), ("false".toList, bool false),
    ("NaN".toList, real .notANumber), ("Infinity".toList, real (.infinite false)),
    ("-Infinity".toList, real (.infinite true))]

def readWord? (text : List Char) : Option (Json × List Char) :=
  words.findSome? fun word => (dropPrefix? word.1 text).map fun rest => (word.2, rest)

/-- The levels that are left inside a collection. -/
def enter : (nesting : Nat) → Except Fault Nat
  | 0 => .error .nestedTooDeep
  | inner + 1 => .ok inner

mutual

/-- A value that begins with the first character. Collections nest at most `nesting` levels; `steps` are
enough for every step into a value, an item or a field. -/
def readValue : (nesting steps : Nat) → List Char → Except Fault (Json × List Char)
  | _, 0, _ => .error .notJson
  | nesting, steps + 1, input =>
    match readWord? input with
    | some read => .ok read
    | none =>
      match input with
      | '"' :: rest => (readText none rest).map fun read => (text read.1, read.2)
      | '[' :: rest => do
        let inner ← enter nesting
        match skipSpace rest with
        | ']' :: behind => .ok (list [], behind)
        | start => (readItems inner steps start).map fun read => (list read.1, read.2)
      | '\x7b' :: rest => do
        let inner ← enter nesting
        match skipSpace rest with
        | '\x7d' :: behind => .ok (object [], behind)
        | start => (readFields inner steps [] start).map fun read => (object read.1, read.2)
      | '-' :: rest => readNumber true rest
      | _ => readNumber false input

/-- The items of a list from the first one on, up to the closing bracket. -/
def readItems : (nesting steps : Nat) → List Char → Except Fault (List Json × List Char)
  | _, 0, _ => .error .notJson
  | nesting, steps + 1, input => do
    let (item, rest) ← readValue nesting steps input
    match skipSpace rest with
    | ']' :: behind => pure ([item], behind)
    | ',' :: more =>
      let (others, behind) ← readItems nesting steps (skipSpace more)
      pure (item :: others, behind)
    | _ => .error .notJson

def readFields : (nesting steps : Nat) → List (List CodePoint × Json) → List Char →
    Except Fault (List (List CodePoint × Json) × List Char)
  | _, 0, _, _ => .error .notJson
  | nesting, steps + 1, before, input =>
    match input with
    | '"' :: rest => do
      let (name, afterName) ← readText none rest
      match skipSpace afterName with
      | ':' :: more =>
        let (value, afterValue) ← readValue nesting steps (skipSpace more)
        let fields := OrderedMap.write name value before
        match skipSpace afterValue with
        | '\x7d' :: behind => pure (fields, behind)
        | ',' :: next => readFields nesting steps fields (skipSpace next)
        | _ => .error .notJson
      | _ => .error .notJson
    | _ => .error .notJson

end

/-- Reads one value with white space around it; of any two steps into it one takes a character. -/
def read (nesting : Nat) (input : List Char) : Except Fault Json := do
  let (value, rest) ← readValue nesting (2 * input.length + 2) (skipSpace input)
  if (skipSpace rest).isEmpty then pure value else .error .notJson

end AttributeGrammar.Json
