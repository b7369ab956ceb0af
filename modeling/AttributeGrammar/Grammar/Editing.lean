import AttributeGrammar.Grammar.Draft

/-! Building a grammar by hand, rule by rule and attribute by attribute.
Rules and symbols may be counted from the end.
-/
namespace AttributeGrammar.Grammar

def declareNames (symbols nonterminals : List String) (grammar : Grammar) : Grammar :=
  { grammar with
    symbolNames := addNames symbols grammar.symbolNames
    nonterminalNames := addNames nonterminals grammar.nonterminalNames }

/-- Adds a rule with the given symbols; one without symbols is added too, but is a fault. -/
def addRuleOf (names : List String) (grammar : Grammar) : Outcome Grammar :=
  let extended := grammar.addRule ⟨names.map fun name => ⟨name, ∅⟩⟩
  if names.isEmpty then .stopped .itemAbsent extended else .done extended

/-- Adds an error, unless the number of its line or rule is too long to be written. -/
def noteError (error : GrammarError) (grammar : Grammar) : Except Fault Grammar :=
  if isWritable error.number then .ok (grammar.addError error) else .error .numberTooLong

def symbolAt (grammar : Grammar) (rule symbol : Int) : Except Fault Symbol := do
  Sequence.item (← Sequence.item grammar.rules rule).symbols symbol

def attributeAt (grammar : Grammar) (rule symbol place : Int) :
    Except Fault (String × Attribute) := do
  Sequence.item (← grammar.symbolAt rule symbol).attributes.entries place

def replaceSymbol (rule symbol : Int) (changed : Symbol) (grammar : Grammar) : Grammar :=
  match Sequence.place? grammar.rules.length rule with
  | none => grammar
  | some place => { grammar with rules := grammar.rules.modify place fun found =>
      ⟨(Sequence.replace? found.symbols symbol changed).getD found.symbols⟩ }

/-- Changes one symbol of a rule and gives the symbol as it is then. -/
def changeSymbol (rule symbol : Int) (change : Symbol → Symbol) (grammar : Grammar) :
    Except Fault (Grammar × Symbol) := do
  let changed := change (← grammar.symbolAt rule symbol)
  pure (grammar.replaceSymbol rule symbol changed, changed)

def declareAttribute (rule symbol : Int) (name : String) (grammar : Grammar) :
    Except Fault (Grammar × Symbol) :=
  grammar.changeSymbol rule symbol (Symbol.declare name)

/-- Declares a dependency with its source; its target is not declared. -/
def declareDependency (rule : Int) (source target : Coordinate) (grammar : Grammar) :
    Except Fault (Grammar × Symbol) :=
  grammar.changeSymbol rule source.symbolIndex (Symbol.depend (.unresolved source target))

def ruleHas (grammar : Grammar) (rule : Int) (name : String) : Except Fault Bool := do
  pure ((← Sequence.item grammar.rules rule).symbolNames.contains name)

end AttributeGrammar.Grammar
