import AttributeGrammar.Analysis.Search
import AttributeGrammar.Analysis.Snapshot

/-! The rounds of the analysis.
In each round every rule gets the relations that its children had in the round before, its graph is
searched from every attribute, and the root projections become relations of its left side. Round 0
is never stable; the analysis ends with the first round in which every nonterminal has the same
relations as in the round before.
-/
namespace AttributeGrammar

/-- The snapshots of a rule, and the dependencies redecorated in the round under way. -/
structure RuleProgress where
  history : List RuleRound := []
  redecorated : List Dependency := []
deriving DecidableEq, Repr

/-- The transient dependencies of an attribute: those that the round redecorated onto it. -/
def RuleProgress.transient (progress : RuleProgress) (c : Coordinate) : List Dependency :=
  progress.redecorated.filter fun d => d.source == c

structure Analysis where
  rules : OrderedMap Nat RuleProgress := ∅
  nonterminals : OrderedMap String (List NonterminalRound) := ∅
  stability : Stability := {}
  acyclic : Bool := true
deriving DecidableEq, Repr

def RuleRound.record (findings : Findings) (snapshot : RuleRound) : RuleRound :=
  { snapshot with
    projections := snapshot.projections.insertAll findings.projections
    cycleStarts := findings.cycleStarts.foldl
      (fun starts start => if starts.contains start then starts else starts ++ [start])
      snapshot.cycleStarts }

namespace Analysis

def rule (analysis : Analysis) (number : Nat) : RuleProgress :=
  (analysis.rules.get? number).getD {}

def history (analysis : Analysis) (nonterminal : String) : List NonterminalRound :=
  (analysis.nonterminals.get? nonterminal).getD []

def withRule (number : Nat) (progress : RuleProgress) (analysis : Analysis) : Analysis :=
  { analysis with rules := analysis.rules.insert number progress }

def withHistory (nonterminal : String) (history : List NonterminalRound) (analysis : Analysis) :
    Analysis :=
  { analysis with nonterminals := analysis.nonterminals.insert nonterminal history }

/-- The relations that are put on one child; those that the rule declares itself are left out. -/
def redecorateChild (child : Symbol) (place : Nat) : List Dependency →
    List Dependency × Option Fault
  | [] => ([], none)
  | relation :: rest =>
    match child.attributes.get? relation.1.source.name with
    | none => ([], some .attributeAbsent)
    | some source =>
      let moved := Dependency.redecorated relation place
      let others := redecorateChild child place rest
      if source.dependencies.contains moved.1 then others else (moved :: others.1, others.2)

/-- A symbol takes part as a child when it is a nonterminal with rules of its own. -/
def isChild (grammar : Grammar) (symbol : Symbol) : Bool :=
  grammar.nonterminalNames.contains symbol.name && grammar.nonterminals.contains symbol.name

def redecorate (grammar : Grammar) (round : Nat) (analysis : Analysis) : List (Symbol × Nat) →
    List Dependency × Option Fault
  | [] => ([], none)
  | (child, place) :: rest =>
    if isChild grammar child then
      match previousRound child.name (analysis.history child.name) round with
      | .error fault => ([], some fault)
      | .ok previous =>
        match redecorateChild child place previous.relations.entries with
        | (here, some fault) => (here, some fault)
        | (here, none) =>
          let others := redecorate grammar round analysis rest
          (here ++ others.1, others.2)
    else redecorate grammar round analysis rest

def recordRelations (nonterminal : String) (round : Nat) (relations : List Dependency)
    (analysis : Analysis) : Analysis :=
  analysis.withHistory nonterminal ((analysis.history nonterminal).modify round fun snapshot =>
    { snapshot with relations := snapshot.relations.insertAll relations })

/-- Opens the snapshot of a rule for the round, redecorates its children and searches its graph. -/
def playRule (grammar : Grammar) (round : Nat) (nonterminal : String) (number : Nat)
    (analysis : Analysis) : Outcome Analysis :=
  match grammar.rules[number]? with
  | none => .stopped .itemAbsent analysis
  | some rule =>
    let history := (analysis.rule number).history ++ [{}]
    match history[round]? with
    | none => .stopped .itemAbsent (analysis.withRule number ⟨history, []⟩)
    | some snapshot =>
      let (redecorated, fault?) := redecorate grammar round analysis (rule.symbols.zipIdx.drop 1)
      let decorated := { snapshot with
        redecorated := snapshot.redecorated.insertAll redecorated }
      match fault? with
      | some fault =>
        .stopped fault (analysis.withRule number ⟨history.set round decorated, redecorated⟩)
      | none =>
        let findings := (RuleGraph.mk rule redecorated).findings
        let searched := analysis.withRule number
          ⟨history.set round (decorated.record findings), redecorated⟩
        let recorded := searched.recordRelations nonterminal round findings.projections
        .ofFault? findings.fault?
          { recorded with acyclic := analysis.acyclic && findings.cycleStarts.isEmpty }

/-- Compares the relations of the round with the previous ones, once all rules were played. -/
def judge (round : Nat) (nonterminal : String) (previous : NonterminalRound)
    (analysis : Analysis) : Outcome Analysis :=
  let history := analysis.history nonterminal
  match history[round]? with
  | none => .stopped .itemAbsent analysis
  | some current =>
    if round ≠ 0 ∧ current.relations.sameKeys previous.relations then
      .done (analysis.withHistory nonterminal (history.set round { current with stable := true }))
    else
      match analysis.stability.markUnstable round with
      | .error fault => .stopped fault analysis
      | .ok stability => .done { analysis with stability := stability }

def playNonterminal (grammar : Grammar) (round : Nat) (entry : String × List Nat)
    (analysis : Analysis) : Outcome Analysis :=
  let opened := analysis.withHistory entry.1 (analysis.history entry.1 ++ [{}])
  match previousRound entry.1 (opened.history entry.1) round with
  | .error fault => .stopped fault opened
  | .ok previous =>
    (Outcome.through (playRule grammar round entry.1) entry.2 opened).andThen
      (judge round entry.1 previous)

def playRound (grammar : Grammar) (round : Nat) (analysis : Analysis) : Outcome Analysis :=
  Outcome.through (playNonterminal grammar round) grammar.nonterminals.entries
    { analysis with stability := analysis.stability.addRound }

/-- Plays rounds until a stable one, at most `limit` of them. -/
def runFrom (grammar : Grammar) : (limit round : Nat) → Analysis → Outcome Analysis
  | 0, _, analysis => .stopped .roundsExhausted analysis
  | limit + 1, round, analysis =>
    (playRound grammar round analysis).andThen fun played =>
      match played.stability.isUnstable round with
      | .error fault => .stopped fault played
      | .ok true => runFrom grammar limit (round + 1) played
      | .ok false => .done played

def run (limit : Nat) (grammar : Grammar) (analysis : Analysis) : Outcome Analysis :=
  runFrom grammar limit 0 analysis

end Analysis
end AttributeGrammar
