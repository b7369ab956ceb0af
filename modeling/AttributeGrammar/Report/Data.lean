import AttributeGrammar.Json.Writer
import AttributeGrammar.Study

/-! A grammar and every round of its analysis as JSON data.
Names and relations are sorted, so that equal results read alike; the dependencies of an attribute
keep the order in which they were declared.
-/
namespace AttributeGrammar.Report
open Json

def numbers (values : List Nat) : Json := list (values.map fun value => int (Int.ofNat value))

def texts (values : List String) : Json := list (values.map ofString)

def position : Option Int → Json
  | none => null
  | some place => int place

def attributeEnd (c : Coordinate) (place : Option Int) : Json :=
  ofFields [("attributeName", ofString c.name), ("symbolIndex", int c.symbolIndex),
    ("attributeIndex", position place)]

def dependencyData (d : Dependency) : Json :=
  ofFields [("from", attributeEnd d.1.source d.2.source),
    ("to", attributeEnd d.1.target d.2.target)]

def relationsData (relations : Relations) : Json :=
  list ((Relations.sortedEntries relations).map dependencyData)

def attributeData (entry : String × Attribute) : Json :=
  ofFields [("name", ofString entry.1), ("indirectlyIdentified", bool entry.2.indirect),
    ("dependencies", list (entry.2.dependencies.entries.map dependencyData))]

def symbolData (symbol : Symbol) : Json :=
  ofFields [("name", ofString symbol.name),
    ("attributes", list (symbol.attributes.entries.map attributeData))]

def ruleRoundData (snapshot : RuleRound) : Json :=
  ofFields [("cycleFound", bool snapshot.cycleFound),
    ("rootProjections", relationsData snapshot.projections),
    ("redecoratedRelations", relationsData snapshot.redecorated)]

def ruleData (analysis : Analysis) (rule : Rule) (number : Nat) : Except Fault Json := do
  let written ← rule.text
  pure (ofFields [("index", int number), ("text", ofString written),
    ("symbols", list (rule.symbols.map symbolData)),
    ("iterations", list ((analysis.rule number).history.map ruleRoundData))])

def nonterminalRoundData (snapshot : NonterminalRound) : Json :=
  ofFields [("isStable", bool snapshot.stable),
    ("transitiveRelations", relationsData snapshot.relations)]

def nonterminalData (analysis : Analysis) (entry : String × List Nat) : Json :=
  ofFields [("name", ofString entry.1), ("productionRules", numbers entry.2),
    ("iterations", list ((analysis.history entry.1).map nonterminalRoundData))]

/-- A rule without symbols has no text, and a grammar with such a rule no data. -/
def data (study : Study) : Except Fault Json := do
  let grammar := study.grammar
  let rules ← grammar.rules.zipIdx.mapM fun (rule, number) => ruleData study.analysis rule number
  pure (ofFields [
    ("errors", texts (grammar.errors.map GrammarError.text)),
    ("allSymbolNames", texts (Text.sorted grammar.symbolNames)),
    ("allNonterminalNames", texts (Text.sorted grammar.nonterminalNames)),
    ("allTerminalNames", texts (Text.sorted grammar.terminalNames)),
    ("allAttributeNames", texts (Text.sorted grammar.attributeNames)),
    ("numberOfElementsPerRule", numbers grammar.elementCounts),
    ("productionRules", list rules),
    ("nonterminals", list (grammar.nonterminals.entries.map (nonterminalData study.analysis))),
    ("isStronglyAcyclic", bool study.analysis.acyclic),
    ("isIterationStable", list (study.analysis.stability.marks.map bool))])

def exported (indent : Option Nat) (study : Study) : Except Fault String :=
  (data study).map (write indent)

end AttributeGrammar.Report
