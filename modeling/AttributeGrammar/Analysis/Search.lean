import AttributeGrammar.Grammar.Basic

/-! Depth-first search from one attribute in the graph of a rule.
The search ends at the first edge that leads back to its start. Each attribute that it reaches gets
the attribute it came from as parent; at an attribute of the left side the parents are followed
back, and each of them that is on the left side too gives a root projection.
-/
namespace AttributeGrammar

/-- A rule with the dependencies that a round redecorated onto its children. -/
structure RuleGraph where
  rule : Rule
  redecorated : List Dependency
deriving DecidableEq, Repr

/-- The dependency on top of the stack comes first, as do the latest attributes and links. -/
structure Search where
  stack : List Dependency
  visited : List Coordinate := []
  parents : List (Coordinate × Coordinate) := []
  projections : List Dependency := []
deriving DecidableEq, Repr

inductive SearchEnd where
  | exhausted
  | cycle
  | blocked (fault : Fault)
deriving DecidableEq, Repr

/-- Follows the links from child to parent, at most `limit` of them. -/
def ancestors (parents : List (Coordinate × Coordinate)) : (limit : Nat) → Coordinate →
    List Coordinate
  | 0, _ => []
  | limit + 1, c =>
    match parents.lookup c with
    | none => []
    | some parent => parent :: ancestors parents limit parent

namespace RuleGraph

def dependencies (graph : RuleGraph) : List Dependency := graph.rule.declared ++ graph.redecorated

/-- The dependencies that start from an attribute: the declared ones, then the redecorated. -/
def leaving (graph : RuleGraph) (c : Coordinate) : Except Fault (List Dependency) :=
  match Sequence.place? graph.rule.symbols.length c.symbolIndex with
  | none => .error (.noItemAt c.symbolIndex)
  | some place =>
    match graph.rule.attributeAt? ⟨place, c.name⟩ with
    | none => .error .attributeAbsent
    | some found => .ok (found.dependencies.entries ++
        graph.redecorated.filter fun d => d.source == ⟨place, c.name⟩)

def rootPosition (graph : RuleGraph) (name : String) : Option Int :=
  (graph.rule.left?.bind fun left => left.attributes.indexOf? name).map Int.ofNat

def projection (graph : RuleGraph) (source target : Coordinate) : Dependency :=
  (⟨⟨0, source.name⟩, ⟨0, target.name⟩⟩,
    ⟨graph.rootPosition source.name, graph.rootPosition target.name⟩)

/-- The projections found when the search reaches `target`. -/
def projectionsTo (graph : RuleGraph) (parents : List (Coordinate × Coordinate))
    (target : Coordinate) : List Dependency :=
  if target.atRoot then
    ((ancestors parents parents.length target).filter Coordinate.atRoot).map
      fun source => graph.projection source target
  else []

/-- Takes the topmost dependency from the stack. -/
def step (graph : RuleGraph) (start : Coordinate) (search : Search) : Search × Option SearchEnd :=
  match search.stack with
  | [] => (search, some .exhausted)
  | d :: rest =>
    if d.target = start then ({ search with stack := rest }, some .cycle)
    else if search.visited.contains d.target then ({ search with stack := rest }, none)
    else
      let parents := (d.target, d.source) :: search.parents
      let reached := { search with
        stack := rest, visited := d.target :: search.visited, parents := parents }
      match graph.leaving d.target with
      | .error fault => (reached, some (.blocked fault))
      | .ok leaving =>
        ({ reached with
            stack := leaving.reverse ++ rest
            projections := search.projections ++ graph.projectionsTo parents d.target }, none)

def searchFrom (graph : RuleGraph) (start : Coordinate) : (limit : Nat) → Search →
    Search × SearchEnd
  | 0, search => (search, .exhausted)
  | limit + 1, search =>
    match graph.step start search with
    | (reached, some ending) => (reached, ending)
    | (reached, none) => graph.searchFrom start limit reached

/-- Each attribute is reached once and then pushes at most every dependency of the graph. -/
def stepLimit (graph : RuleGraph) : Nat :=
  (graph.dependencies.length + 1) * (graph.dependencies.length + 1)

def search (graph : RuleGraph) (start : Coordinate) : Search × SearchEnd :=
  match graph.leaving start with
  | .error fault => ({ stack := [] }, .blocked fault)
  | .ok leaving => graph.searchFrom start graph.stepLimit { stack := leaving.reverse }

def attributes (graph : RuleGraph) : List Coordinate :=
  graph.rule.symbols.zipIdx.flatMap fun (symbol, place) =>
    symbol.attributes.keys.map fun name => ⟨place, name⟩

end RuleGraph

/-- What the searches from some attributes found, until a fault. -/
structure Findings where
  projections : List Dependency := []
  cycleStarts : List Coordinate := []
  fault? : Option Fault := none
deriving DecidableEq, Repr

namespace RuleGraph

def findingsFrom (graph : RuleGraph) : List Coordinate → Findings
  | [] => {}
  | start :: rest =>
    let (search, ending) := graph.search start
    match ending with
    | .blocked fault => { projections := search.projections, fault? := some fault }
    | .exhausted =>
      let others := graph.findingsFrom rest
      { others with projections := search.projections ++ others.projections }
    | .cycle =>
      let others := graph.findingsFrom rest
      { others with
        projections := search.projections ++ others.projections
        cycleStarts := start :: others.cycleStarts }

/-- What the searches from all attributes find; a projection found again is the same one. -/
def findings (graph : RuleGraph) : Findings :=
  let found := graph.findingsFrom graph.attributes
  { found with projections := Dependency.firsts found.projections }

end RuleGraph
end AttributeGrammar
