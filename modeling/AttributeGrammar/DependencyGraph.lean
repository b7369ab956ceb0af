import AttributeGrammar.Study

/-! The dependency graph of a rule, alone or in one round of the analysis.
Each symbol has a cluster with a node for itself and one for each of its attributes. The edges are
the declared dependencies and, in a round, the redecorated relations and the root projections.
-/
namespace AttributeGrammar

inductive NodeKind where
  | symbol
  | ofAttribute (indirect : Bool)
deriving DecidableEq, Repr

structure GraphNode where
  id : String
  label : String
  kind : NodeKind
deriving DecidableEq, Repr

structure Cluster where
  place : Nat
  label : String
  nodes : List GraphNode
deriving DecidableEq, Repr

inductive EdgeKind where
  | declared
  | redecorated
  | projected
deriving DecidableEq, Repr

structure GraphEdge where
  source : String
  target : String
  kind : EdgeKind
deriving DecidableEq, Repr

structure DependencyGraph where
  title : String
  clusters : List Cluster
  edges : List GraphEdge
deriving DecidableEq, Repr

namespace DependencyGraph

def nodes (graph : DependencyGraph) : List GraphNode := graph.clusters.flatMap Cluster.nodes

def symbolId (place : Int) : String := "s" ++ toString place

def attributeId (c : Coordinate) : String := symbolId c.symbolIndex ++ "_" ++ c.name

def cluster (symbol : Symbol) (place : Nat) : Cluster :=
  { place := place
    label := symbol.name ++ "[" ++ toString place ++ "]"
    nodes := ⟨symbolId place, symbol.name, .symbol⟩ :: symbol.attributes.entries.map fun entry =>
      ⟨attributeId ⟨place, entry.1⟩, entry.1, .ofAttribute entry.2.indirect⟩ }

def edgesOf (kind : EdgeKind) (dependencies : List Dependency) : List GraphEdge :=
  dependencies.map fun d => ⟨attributeId d.1.source, attributeId d.1.target, kind⟩

def roundEdges (snapshot : RuleRound) : List GraphEdge :=
  edgesOf .redecorated snapshot.redecorated.entries ++
    edgesOf .projected snapshot.projections.entries

def ofRule (title : String) (rule : Rule) (snapshot? : Option RuleRound) : DependencyGraph :=
  { title := title
    clusters := rule.symbols.zipIdx.map fun (symbol, place) => cluster symbol place
    edges := edgesOf .declared rule.declared ++ ((snapshot?.map roundEdges).getD []) }

end DependencyGraph

namespace Study

/-- The snapshot that a round of a rule left, for a round that was played. -/
def snapshot? (study : Study) (place : Nat) (rule : Int) : Option Int →
    Except Fault (Option RuleRound)
  | none => .ok none
  | some round =>
    if round < 0 then .error (.roundAbsent rule round)
    else match (study.analysis.rule place).history[round.toNat]? with
      | some snapshot => .ok (some snapshot)
      | none => .error (.roundAbsent rule round)

def roundTitle (written : String) : Option Int → String
  | none => written
  | some round => written ++ " (第 " ++ toString round ++ " 轮)"

/-- The graph of a rule, which may be counted from the end. -/
def dependencyGraph (study : Study) (rule : Int) (round? : Option Int) :
    Except Fault DependencyGraph :=
  match Sequence.place? study.grammar.rules.length rule with
  | none => .error (.noItemAt rule)
  | some place =>
    match study.grammar.rules[place]? with
    | none => .error .itemAbsent
    | some found => do
      let snapshot ← study.snapshot? place rule round?
      let written ← found.text
      pure (.ofRule (roundTitle written round?) found snapshot)

end Study
end AttributeGrammar
