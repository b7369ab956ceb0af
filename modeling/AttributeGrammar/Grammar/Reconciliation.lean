import AttributeGrammar.Grammar.Basic

/-! Reconciliation gives all occurrences of a symbol the same attributes.
An attribute declared at any occurrence is completed at the others; the attributes of each are then
sorted by name, which fixes the places that dependencies refer to. The symbols that are on no left
side are the terminals.
-/
namespace AttributeGrammar

def collectAttributes (collected : OrderedMap String (List String)) (symbol : Symbol) :
    OrderedMap String (List String) :=
  let known := (collected.get? symbol.name).getD []
  collected.insert symbol.name (symbol.attributes.keys.foldl
    (fun names name => if names.contains name then names else names ++ [name]) known)

namespace Symbol

/-- Adds those of the different `names` that are missing, and sorts by name. -/
def complete (names : List String) (symbol : Symbol) : Symbol :=
  let missing := names.filter fun name => !symbol.attributes.contains name
  let completed := symbol.attributes.entries ++ missing.map fun name => (name, { indirect := true })
  { symbol with attributes := OrderedMap.sort Text.inOrder ⟨completed⟩ }

end Symbol

/-- A part whose dependencies were resolved up to a fault, and how many targets were not found. -/
structure Resolved (Part : Type) where
  part : Part
  missing : Nat := 0
  fault? : Option Fault := none
deriving Repr

namespace Resolved

/-- Resolves part after part; behind a fault the parts stay as they are. -/
def along {Part : Type} (resolve : Nat → Part → Resolved Part) (place : Nat) :
    List Part → Resolved (List Part)
  | [] => { part := [] }
  | part :: rest =>
    let first := resolve place part
    match first.fault? with
    | some fault => ⟨first.part :: rest, first.missing, some fault⟩
    | none =>
      let others := along resolve (place + 1) rest
      ⟨first.part :: others.part, first.missing + others.missing, others.fault?⟩

def ofDependency (symbols : List Symbol) (source : Nat) (d : Dependency) : Resolved Dependency :=
  match Sequence.item? symbols d.target.symbolIndex with
  | none => { part := d, fault? := some (.noItemAt d.target.symbolIndex) }
  | some symbol =>
    match symbol.attributes.indexOf? d.target.name with
    | none => { part := d, missing := 1 }
    | some target => { part := d.resolved source target }

/-- A fault leaves all dependencies of the attribute unresolved. -/
def ofAttribute (symbols : List Symbol) (place : Nat) (entry : String × Attribute) :
    Resolved (String × Attribute) :=
  let resolved := along (fun _ => ofDependency symbols place) 0 entry.2.dependencies.entries
  match resolved.fault? with
  | some fault => ⟨entry, resolved.missing, some fault⟩
  | none => { part := (entry.1, { entry.2 with dependencies := ⟨resolved.part⟩ })
              missing := resolved.missing }

def ofSymbol (symbols : List Symbol) (symbol : Symbol) : Resolved Symbol :=
  let resolved := along (ofAttribute symbols) 0 symbol.attributes.entries
  ⟨{ symbol with attributes := ⟨resolved.part⟩ }, resolved.missing, resolved.fault?⟩

def ofRule (rule : Rule) : Resolved Rule :=
  let resolved := along (fun _ => ofSymbol rule.symbols) 0 rule.symbols
  ⟨⟨resolved.part⟩, resolved.missing, resolved.fault?⟩

end Resolved

namespace Grammar

def unresolvedTarget (rule : Nat) : GrammarError :=
  .inRule rule ⟨"_resolve_attribute_indexes_and_count_elements()", .targetUnresolved⟩

def collect (grammar : Grammar) : Grammar :=
  { grammar with attributesBySymbol :=
      (grammar.rules.flatMap Rule.symbols).foldl collectAttributes ∅ }

def completeSymbol (grammar : Grammar) (symbol : Symbol) : Symbol :=
  match grammar.attributesBySymbol.get? symbol.name with
  | none => symbol
  | some names => symbol.complete names

def complete (grammar : Grammar) : Grammar :=
  { grammar with rules := grammar.rules.map fun rule =>
      ⟨rule.symbols.map grammar.completeSymbol⟩ }

/-- Resolves the rules from number `done.length` on and counts the elements of each. -/
def resolveRules : (done : List Rule) → List Rule → Grammar → Outcome Grammar
  | done, [], grammar => .done { grammar with rules := done }
  | done, rule :: rest, grammar =>
    let resolved := Resolved.ofRule rule
    let errors := List.replicate resolved.missing (unresolvedTarget done.length)
    let next := { grammar with errors := grammar.errors ++ errors }
    match resolved.fault? with
    | some fault => .stopped fault { next with rules := done ++ resolved.part :: rest }
    | none => resolveRules (done ++ [resolved.part]) rest
        { next with elementCounts := next.elementCounts ++ [resolved.part.elementCount] }

def separateTerminals (grammar : Grammar) : Grammar :=
  { grammar with terminalNames := grammar.symbolNames.filter fun name =>
      !grammar.nonterminalNames.contains name }

def reconcile (grammar : Grammar) : Outcome Grammar :=
  let completed := grammar.collect.complete
  (resolveRules [] completed.rules { completed with elementCounts := [] }).andThen fun resolved =>
    .done resolved.separateTerminals

end Grammar
end AttributeGrammar
