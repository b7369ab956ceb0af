import AttributeGrammar.Json.Value

/-! JSON texts: on one line, or one item a line with an indentation for each level.
-/
namespace AttributeGrammar.Json
open Text

def escapeCharacter (c : Char) : List Char :=
  if c == '"' then ['\\', '"']
  else if c == '\\' then ['\\', '\\']
  else if c == '\n' then ['\\', 'n']
  else if c == '\r' then ['\\', 'r']
  else if c == '\t' then ['\\', 't']
  else if c == '\x08' then ['\\', 'b']
  else if c == '\x0c' then ['\\', 'f']
  else if c.toNat < 0x20 then ['\\', 'u'] ++ hexadecimal 4 c.toNat
  else [c]

def writeText (points : List CodePoint) : String :=
  String.ofList ('"' :: points.flatMap (fun point => escapeCharacter point.shown) ++ ['"'])

def writeReal : Binary → String
  | .notANumber => "NaN"
  | .infinite negative => if negative then "-Infinity" else "Infinity"
  | value => value.text

/-- What stands between the items of a collection, and before the first and behind the last. -/
structure Separators where
  opening : String
  between : String
  closing : String

def separators (indent : Option Nat) (level : Nat) : Separators :=
  match indent with
  | none => ⟨"", ", ", ""⟩
  | some width =>
    let line := fun depth : Nat => "\n" ++ String.ofList (List.replicate (depth * width) ' ')
    ⟨line (level + 1), "," ++ line (level + 1), line level⟩

mutual

def writeAt (indent : Option Nat) (level : Nat) : Json → String
  | null => "null"
  | bool true => "true"
  | bool false => "false"
  | int value => toString value
  | real value => writeReal value
  | text points => writeText points
  | list [] => "[]"
  | list (item :: rest) =>
    let around := separators indent level
    "[" ++ around.opening ++ writeAt indent (level + 1) item ++
      writeItems indent level around.between rest ++ around.closing ++ "]"
  | object [] => "\x7b\x7d"
  | object ((name, value) :: rest) =>
    let around := separators indent level
    "\x7b" ++ around.opening ++ writeText name ++ ": " ++ writeAt indent (level + 1) value ++
      writeFields indent level around.between rest ++ around.closing ++ "\x7d"

def writeItems (indent : Option Nat) (level : Nat) (between : String) : List Json → String
  | [] => ""
  | item :: rest =>
    between ++ writeAt indent (level + 1) item ++ writeItems indent level between rest

def writeFields (indent : Option Nat) (level : Nat) (between : String) :
    List (List CodePoint × Json) → String
  | [] => ""
  | (name, value) :: rest =>
    between ++ writeText name ++ ": " ++ writeAt indent (level + 1) value ++
      writeFields indent level between rest

end

def write (indent : Option Nat) (value : Json) : String := writeAt indent 0 value

end AttributeGrammar.Json
