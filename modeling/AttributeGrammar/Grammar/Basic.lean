import AttributeGrammar.Dependency
import AttributeGrammar.Fault
import AttributeGrammar.Grammar.Error

/-! Attribute grammars: rules, their symbols, the attributes of each occurrence of a symbol and the
dependencies declared between them. A dependency is kept with its source only.
-/
namespace AttributeGrammar

/-- An indirect attribute was declared for the symbol in another place and completed here. -/
structure Attribute where
  dependencies : Relations := ∅
  indirect : Bool := false
deriving DecidableEq, Repr

structure Symbol where
  name : String
  attributes : OrderedMap String Attribute := ∅
deriving DecidableEq, Repr

/-- The first symbol is the left side. -/
structure Rule where
  symbols : List Symbol
deriving DecidableEq, Repr

structure Grammar where
  symbolNames : List String := []
  nonterminalNames : List String := []
  terminalNames : List String := []
  attributeNames : List String := []
  rules : List Rule := []
  nonterminals : OrderedMap String (List Nat) := ∅
  attributesBySymbol : OrderedMap String (List String) := ∅
  elementCounts : List Nat := []
  errors : List GrammarError := []
deriving DecidableEq, Repr

def Attribute.text (name : String) (data : Attribute) : String :=
  if data.dependencies.isEmpty then name
  else name ++ "->\x7b" ++
    String.intercalate ", " (data.dependencies.entries.map Dependency.text) ++ "\x7d"

namespace Symbol

def declare (name : String) (symbol : Symbol) : Symbol :=
  if symbol.attributes.contains name then symbol
  else { symbol with attributes := symbol.attributes.insert name {} }

/-- Adds a dependency to the attribute it starts from, which is declared if need be. -/
def depend (d : Dependency) (symbol : Symbol) : Symbol :=
  let source := (symbol.attributes.get? d.source.name).getD {}
  let extended := { source with dependencies := source.dependencies.insert d.edge d.positions }
  { symbol with attributes := symbol.attributes.insert d.source.name extended }

def text (symbol : Symbol) : String :=
  if symbol.attributes.isEmpty then "(" ++ symbol.name ++ ")"
  else "(" ++ symbol.name ++ ": [" ++ String.intercalate ", "
    (symbol.attributes.entries.map fun entry => entry.2.text entry.1) ++ "])"

end Symbol

namespace Rule

def left? (rule : Rule) : Option Symbol := rule.symbols.head?

def left (rule : Rule) : Except Fault Symbol :=
  match rule.symbols with
  | [] => .error .itemAbsent
  | left :: _ => .ok left

def right (rule : Rule) : List Symbol := rule.symbols.drop 1

def symbolNames (rule : Rule) : List String := rule.symbols.map Symbol.name

/-- The rule as it is written; a right side without symbols is `ε`. -/
def text (rule : Rule) : Except Fault String := do
  let left ← rule.left
  let right := if rule.right.isEmpty then ["ε"] else rule.right.map Symbol.name
  pure (String.intercalate " " (left.name :: "->" :: right))

def attributeAt? (rule : Rule) (c : Coordinate) : Option Attribute :=
  (Sequence.item? rule.symbols c.symbolIndex).bind fun symbol => symbol.attributes.get? c.name

def declared (rule : Rule) : List Dependency :=
  rule.symbols.flatMap fun symbol =>
    symbol.attributes.values.flatMap fun data => data.dependencies.entries

def elementCount (rule : Rule) : Nat :=
  rule.symbols.foldl (fun count symbol => count + (symbol.attributes.size + 1)) 0

end Rule

namespace Grammar

/-- Appends a rule and, if it has a left side, lists it under that nonterminal. -/
def addRule (rule : Rule) (grammar : Grammar) : Grammar :=
  let listed := match rule.left? with
    | none => grammar.nonterminals
    | some left =>
      let others := (grammar.nonterminals.get? left.name).getD []
      grammar.nonterminals.insert left.name (others ++ [grammar.rules.length])
  { grammar with rules := grammar.rules ++ [rule], nonterminals := listed }

def addError (error : GrammarError) (grammar : Grammar) : Grammar :=
  { grammar with errors := grammar.errors ++ [error] }

def hasErrors (grammar : Grammar) : Bool := !grammar.errors.isEmpty

/-- The numbers of the rules with the given left side. -/
def rulesFor (grammar : Grammar) (name : String) : Except Fault (List Nat) := do
  let lefts ← grammar.rules.mapM Rule.left
  pure ((lefts.zipIdx.filter fun left => left.1.name == name).map Prod.snd)

def text (grammar : Grammar) : Except Fault String := do
  let lines ← grammar.rules.mapM Rule.text
  pure ("属性文法：\n" ++ String.join (lines.map fun line => "  " ++ line ++ "\n"))

end Grammar
end AttributeGrammar
