import AttributeGrammar.Decimal.Shortest
import AttributeGrammar.Fault
import AttributeGrammar.OrderedMap
import AttributeGrammar.Text.Basic

/-! JSON values, with the fields of an object in order, and their reading as collections and as
text for display. A text is a list of code points, because an escape may name half a pair of units.
-/
namespace AttributeGrammar
open Text

inductive Json where
  | null
  | bool (value : Bool)
  | int (value : Int)
  | real (value : Binary)
  | text (points : List CodePoint)
  | list (items : List Json)
  | object (fields : List (List CodePoint × Json))
deriving Repr

namespace Json

def ofString (value : String) : Json := text (points value)

def ofFields (fields : List (String × Json)) : Json :=
  object (fields.map fun field => (points field.1, field.2))

def field? (name : String) : Json → Option Json
  | object fields => (fields.find? fun field => field.1 == points name).map Prod.snd
  | _ => none

def isObject : Json → Bool
  | object _ => true
  | _ => false

/-- The members of a collection: an object has its keys and a text its characters. -/
def members : Json → Except Fault (List Json)
  | list items => .ok items
  | object fields => .ok (fields.map fun field => text field.1)
  | text points => .ok (points.map fun point => text [point])
  | _ => .error .notCollection

def size (value : Json) : Except Fault Nat := value.members.map List.length

mutual

def quotedText : Json → String
  | null => "None"
  | bool true => "True"
  | bool false => "False"
  | int value => toString value
  | real value => value.text
  | text points => quotedPoints points
  | list items => "[" ++ quotedItems items ++ "]"
  | object fields => "\x7b" ++ quotedFields fields ++ "\x7d"

def quotedItems : List Json → String
  | [] => ""
  | [item] => quotedText item
  | item :: rest => quotedText item ++ ", " ++ quotedItems rest

def quotedFields : List (List CodePoint × Json) → String
  | [] => ""
  | [(name, value)] => quotedPoints name ++ ": " ++ quotedText value
  | (name, value) :: rest => quotedPoints name ++ ": " ++ quotedText value ++ ", " ++
      quotedFields rest

end

/-- A text stands for itself; texts within other values are quoted. -/
def plainText : Json → List CodePoint
  | text written => written
  | value => points value.quotedText

end Json
end AttributeGrammar
