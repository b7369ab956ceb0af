import AttributeGrammar.OrderedMap
import AttributeGrammar.Text.Basic

/-! Dependencies between the attributes of one rule.
An attribute is named by its coordinate: the index of its symbol in the rule, and its name. An edge
leads from the attribute that is read to the one computed from it. A dependency is an edge with the
places of both attributes among those of their symbols, as far as these are known.
-/
namespace AttributeGrammar

structure Coordinate where
  symbolIndex : Int
  name : String
deriving DecidableEq, Repr

namespace Coordinate

/-- The symbol at index 0 is the left side of the rule. -/
def atRoot (c : Coordinate) : Bool := c.symbolIndex == 0

def precedes (left right : Coordinate) : Bool :=
  left.symbolIndex < right.symbolIndex ||
    (left.symbolIndex == right.symbolIndex && decide (left.name < right.name))

def text (c : Coordinate) : String := c.name ++ "[" ++ toString c.symbolIndex ++ "]"

end Coordinate

structure Edge where
  source : Coordinate
  target : Coordinate
deriving DecidableEq, Repr

namespace Edge

def precedes (left right : Edge) : Bool :=
  left.source.precedes right.source ||
    (left.source == right.source && left.target.precedes right.target)

def inOrder (left right : Edge) : Bool := !right.precedes left

def relationText (edge : Edge) : String := "(" ++ edge.source.name ++ "," ++ edge.target.name ++ ")"

def indexedText (edge : Edge) : String := edge.source.text ++ " → " ++ edge.target.text

/-- The same edge with both ends at the symbol of index `symbolIndex`. -/
def movedTo (edge : Edge) (symbolIndex : Int) : Edge :=
  ⟨⟨symbolIndex, edge.source.name⟩, ⟨symbolIndex, edge.target.name⟩⟩

end Edge

structure Positions where
  source : Option Int := none
  target : Option Int := none
deriving DecidableEq, Repr

abbrev Dependency := Edge × Positions

/-- A set of dependencies, one for each edge, in the order in which the edges were recorded. -/
abbrev Relations := OrderedMap Edge Positions

namespace Dependency

def edge (d : Dependency) : Edge := d.1

def positions (d : Dependency) : Positions := d.2

def source (d : Dependency) : Coordinate := d.1.source

def target (d : Dependency) : Coordinate := d.1.target

def unresolved (source target : Coordinate) : Dependency := (⟨source, target⟩, {})

def resolved (d : Dependency) (sourcePosition targetPosition : Int) : Dependency :=
  (d.1, ⟨some sourcePosition, some targetPosition⟩)

def isResolved (d : Dependency) : Bool := d.2.source.isSome && d.2.target.isSome

/-- A relation of a nonterminal, put where the nonterminal occurs as a child. -/
def redecorated (d : Dependency) (symbolIndex : Int) : Dependency :=
  (d.1.movedTo symbolIndex, d.2)

def positionText : Option Int → String
  | none => "None"
  | some position => toString position

def text (d : Dependency) : String :=
  d.1.source.name ++ "_" ++ positionText d.2.source ++ "[" ++ toString d.1.source.symbolIndex ++
    "] -> " ++ d.1.target.name ++ "_" ++ positionText d.2.target ++ "[" ++
    toString d.1.target.symbolIndex ++ "]"

/-- The dependencies whose edge does not come before; `seen` has the targets of each source that
came. -/
def firstsFrom (seen : OrderedMap Coordinate (List Coordinate)) : List Dependency → List Dependency
  | [] => []
  | d :: rest =>
    let targets := (seen.get? d.1.source).getD []
    if targets.contains d.1.target then firstsFrom seen rest
    else d :: firstsFrom (seen.insert d.1.source (d.1.target :: targets)) rest

/-- Each edge once, where it comes first. -/
def firsts (dependencies : List Dependency) : List Dependency := firstsFrom ∅ dependencies

end Dependency

namespace Relations

def ofList (dependencies : List Dependency) : Relations :=
  OrderedMap.insertAll ∅ dependencies

def sortedEntries (relations : Relations) : List Dependency := (relations.sort Edge.inOrder).entries

/-- The relations of a nonterminal as `(a,b),(b,c)`, sorted, so that equal sets read alike. -/
def relationString (relations : Relations) : String :=
  String.intercalate "," (Text.sorted (relations.keys.map Edge.relationText))

/-- The relations as shown to a reader, with symbol indexes where they are not all at the root. -/
def display (withIndex : Bool) (relations : Relations) : String :=
  if relations.isEmpty then "∅"
  else String.intercalate ", "
    (Text.sorted (relations.keys.map (if withIndex then Edge.indexedText else Edge.relationText)))

end Relations
end AttributeGrammar
