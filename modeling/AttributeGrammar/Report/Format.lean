import AttributeGrammar.Json.Value

/-! Checking that data has the form of a report.
Every rule and every nonterminal must have as many iterations as there are stability marks. The
checks run in order and the first that fails decides; what is not a collection has no members and
no size, which is a fault.
-/
namespace AttributeGrammar.Report

def hasFields (names : List String) (value : Json) : Bool :=
  names.all fun name => (value.field? name).isSome

def fieldOf (name : String) (value : Json) : Json := (value.field? name).getD .null

/-- A part is an object with the given fields and the right number of iterations. -/
def partFits (names : List String) (rounds : Nat) (part : Json) : Except Fault Bool :=
  if part.isObject && hasFields names part then
    (fieldOf "iterations" part).size.map (· == rounds)
  else .ok false

def partsFit (names : List String) (rounds : Nat) : List Json → Except Fault Bool
  | [] => .ok true
  | part :: rest => do
    if ← partFits names rounds part then partsFit names rounds rest else pure false

def requiredFields : List String :=
  ["errors", "productionRules", "nonterminals", "isStronglyAcyclic", "isIterationStable"]

def rulesFit (value : Json) (rounds : Nat) : Except Fault Bool := do
  partsFit ["index", "symbols", "iterations"] rounds (← (fieldOf "productionRules" value).members)

def nonterminalsFit (value : Json) (rounds : Nat) : Except Fault Bool := do
  partsFit ["name", "iterations"] rounds (← (fieldOf "nonterminals" value).members)

def isValid (value : Json) : Except Fault Bool :=
  if value.isObject && hasFields requiredFields value then
    match fieldOf "isStronglyAcyclic" value, fieldOf "isIterationStable" value with
    | .bool _, .list marks => do
      if ← rulesFit value marks.length then nonterminalsFit value marks.length else pure false
    | _, _ => .ok false
  else .ok false

end AttributeGrammar.Report
