import AttributeGrammar.Grammar.Row

/-! The rows of a text put together to a grammar that is not reconciled yet.
-/
namespace AttributeGrammar

def addNames (names known : List String) : List String := names.foldr List.insert known

namespace Grammar

def addRow (line : Nat) (draft : RowDraft) (grammar : Grammar) : Grammar :=
  let extended := match draft.rule with
    | none => grammar
    | some rule => grammar.addRule rule
  { extended with
    symbolNames := addNames draft.symbolNames grammar.symbolNames
    nonterminalNames := addNames draft.nonterminalNames grammar.nonterminalNames
    attributeNames := addNames draft.attributeNames grammar.attributeNames
    errors := grammar.errors ++ draft.problems.map (.inLine line) }

/-- Adds the rows, of which the first has the number `line`; blank rows count but add nothing. -/
def addRows (configuration : Configuration) : (line : Nat) → List (List Char) → Grammar →
    Except Fault Grammar
  | _, [], grammar => .ok grammar
  | line, row :: rest, grammar =>
    if Text.isEmpty row then addRows configuration (line + 1) rest grammar
    else do
      let draft ← RowDraft.read configuration row
      addRows configuration (line + 1) rest (grammar.addRow line draft)

def ofRows (configuration : Configuration) (rows : List (List Char)) : Except Fault Grammar :=
  addRows configuration 0 rows {}

end Grammar
end AttributeGrammar
