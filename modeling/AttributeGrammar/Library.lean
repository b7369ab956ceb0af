import AttributeGrammar.Json.Reader
import AttributeGrammar.Text.Encoded

/-! A library of example grammars: titles, and the rows of each grammar.
Both are lists of code points, as an escape in a file may name half a pair of units.
-/
namespace AttributeGrammar
open Text

structure Example where
  title : List CodePoint
  rows : List (List CodePoint)
deriving DecidableEq, Repr

namespace Example

def ofTexts (title : String) (rows : List String) : Example := ⟨points title, rows.map points⟩

def text (entry : Example) : List CodePoint := List.intercalate (points "\n") entry.rows

def description (entry : Example) : String := "GrammarEntry(" ++ quotedPoints entry.title ++ ")"

end Example

structure Library where
  examples : List Example
deriving DecidableEq, Repr

namespace Library

def titles (library : Library) : List (List CodePoint) := library.examples.map Example.title

def size (library : Library) : Nat := library.examples.length

def get (library : Library) (index : Int) : Except Fault Example :=
  Sequence.item library.examples index

/-- The grammar at hand when no library can be read. -/
def fallback : Library :=
  ⟨[.ofTexts "编译原理课程讲义中的例子"
    ["S -> L : h[0] = h[1]; i[1] = j[1]; j[0] = j[1]; k[1] = h[1]; i[0] = 0; k[0] = 0",
      "L -> a : j[0] = k[0]; h[0] = 0; i[0] = 0",
      "L -> b : h[0] = i[0]; j[0] = 0; k[0] = 0"]]⟩

/-- The examples that come with the program. -/
def bundled : Library :=
  ⟨fallback.examples ++ [
    .ofTexts "二进制数的值"
      ["N -> L : v[0] = v[1]; s[1] = 0",
        "L -> L B : v[0] = v[1] + v[2]; s[2] = s[0]; s[1] = s[0] + 1",
        "L -> B : v[0] = v[1]; s[1] = s[0]",
        "B -> 0 : v[0] = 0",
        "B -> 1 : v[0] = 2 ^ s[0]"],
    .ofTexts "一次重新装饰" ["S -> A : z[0] = z[1]", "A -> a : z[0] = 0"],
    .ofTexts "由重新装饰产生的环" ["S -> A : i[1] = s[1]; r[0] = s[1]", "A -> a : s[0] = i[0]"],
    .ofTexts "产生式内部的环" ["S -> a : x[0] = y[0]; y[0] = x[0]"],
    .ofTexts "空串" ["S -> A b : n[0] = n[1] + 1", "A -> : n[0] = 0"]]⟩

def exampleOf (number : Nat) (item : Json) : Except LibraryFault Example :=
  match item.field? "title", item.field? "productionRules" with
  | none, _ => .error (.titleMissing number)
  | some _, none => .error (.rulesMissing number)
  | some title, some (.list rules) => .ok ⟨title.plainText, rules.map Json.plainText⟩
  | some _, some _ => .error (.rulesNotArray number)

def examplesOf : (number : Nat) → List Json → Except LibraryFault (List Example)
  | _, [] => .ok []
  | number, item :: rest => do
    let first ← exampleOf number item
    let others ← examplesOf (number + 1) rest
    pure (first :: others)

/-- A library is an array that is not empty, of objects with a title and an array of rules. -/
def ofData : Json → Except LibraryFault Library
  | .list [] => .error .noGrammar
  | .list items => (examplesOf 1 items).map Library.mk
  | _ => .error .notArray

/-- The library that a file of these bytes holds, whose JSON may nest `nesting` levels. -/
def ofBytes (nesting : Nat) (bytes : List UInt8) : Except Fault Library :=
  match decode bytes with
  | .error error => .error (.undecodable error)
  | .ok text =>
    match Json.read nesting (lineFeeds text) with
    | .error .notJson => .error (.library .malformed)
    | .error fault => .error fault
    | .ok data =>
      match ofData data with
      | .ok library => .ok library
      | .error fault => .error (.library fault)

/-- A file that cannot be opened or is no library gives the fallback; other faults remain. -/
def orFallback : Except Fault Library → Except Fault Library
  | .error (.file _ _) => .ok fallback
  | .error (.library _) => .ok fallback
  | result => result

end Library
end AttributeGrammar
