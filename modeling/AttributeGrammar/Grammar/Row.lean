import AttributeGrammar.Configuration
import AttributeGrammar.Grammar.Basic
import AttributeGrammar.Reference
import AttributeGrammar.Text.Row

/-! One row of a grammar text: a rule, and after a colon its equations.
What a row contributes does not depend on any other row. An error in the rule gives the row up; an
error in an equation gives up that equation, from the place of the error on.
-/
namespace AttributeGrammar
open Text

def forbiddenParts : List (List Char) := forbiddenInSymbols.map fun c => [c]

def readLeftSide (rule left : List Char) : Except Problem String :=
  match words left with
  | [] => .error ⟨stripped rule, .leftSideMissing⟩
  | name :: others =>
    if isEmpty name then .error ⟨stripped rule, .leftSideMissing⟩
    else if containsAny forbiddenParts name then .error ⟨String.ofList name, .leftSideForbidden⟩
    else if others.isEmpty then .ok (String.ofList name)
    else .error ⟨stripped rule, .leftSideSeveral⟩

/-- A blank right side is the empty word. -/
def readRightSide (right : List Char) : Except Problem (List String) :=
  if isEmpty right then .ok []
  else if containsAny forbiddenParts right then .error ⟨stripped right, .rightSideForbidden⟩
  else .ok ((words right).map String.ofList)

/-- The attribute that an equation defines and those it reads, as far as they are good. -/
structure Equation where
  target : Option Coordinate := none
  sources : List Coordinate := []
  problems : List Problem := []
deriving DecidableEq, Repr

namespace Equation

def ofProblem (fragment : String) (reason : Reason) : Equation :=
  { problems := [⟨fragment, reason⟩] }

def reads (symbolCount : Nat) (whole right : List Char) (target : Coordinate)
    (references : List Reference) : Equation :=
  let inside := references.takeWhile fun reference => reference.symbolIndex < symbolCount
  { target := some target
    sources := inside.map fun reference => ⟨reference.symbolIndex, reference.name⟩
    problems := if inside.length < references.length then
      [⟨stripped whole, .indexBeyondRule (stripped right)⟩] else [] }

/-- Reads one equation of a rule with `symbolCount` symbols. -/
def read (configuration : Configuration) (symbolCount : Nat) (whole : List Char) :
    Except Fault Equation :=
  if isEmpty whole && configuration.ignoreBlankEquations then .ok {}
  else match pieces '=' whole with
    | [left, right] => do
      match ← Reference.scan left with
      | [] => pure (ofProblem (stripped whole) .targetMalformed)
      | [reference] =>
        if reference.symbolIndex < symbolCount then
          let references ← Reference.scan right
          pure (reads symbolCount whole right ⟨reference.symbolIndex, reference.name⟩ references)
        else pure (ofProblem (stripped whole) (.indexBeyondRule (stripped left)))
      | _ => pure (ofProblem (stripped whole) .targetSeveral)
    | [] | [_] => .ok (ofProblem (stripped whole) .equalsMissing)
    | _ => .ok (ofProblem (stripped whole) .equalsSeveral)

def attributeNames (equation : Equation) : List String :=
  (equation.target.toList ++ equation.sources).map Coordinate.name

/-- Declares the target and adds to each source its dependency. -/
def declareIn (equation : Equation) (symbols : List Symbol) : List Symbol :=
  match equation.target with
  | none => symbols
  | some target =>
    equation.sources.foldl
      (fun symbols source =>
        symbols.modify source.symbolIndex.toNat (Symbol.depend (.unresolved source target)))
      (symbols.modify target.symbolIndex.toNat (Symbol.declare target.name))

end Equation

/-- What one row contributes to a grammar. -/
structure RowDraft where
  symbolNames : List String := []
  nonterminalNames : List String := []
  attributeNames : List String := []
  rule : Option Rule := none
  problems : List Problem := []
deriving DecidableEq, Repr

namespace RowDraft

def ofEquations (names : List String) (equations : List Equation) : RowDraft :=
  let symbols : List Symbol := names.map fun name => ⟨name, ∅⟩
  { attributeNames := equations.flatMap Equation.attributeNames
    rule := some ⟨equations.foldl (fun symbols equation => equation.declareIn symbols) symbols⟩
    problems := equations.flatMap Equation.problems }

/-- A side that is good contributes its names even when the other is not. -/
def ofSides (left : Except Problem String) (right : Except Problem (List String)) : RowDraft :=
  let leftNames := match left with
    | .ok name => [name]
    | .error _ => []
  let rightNames := match right with
    | .ok names => names
    | .error _ => []
  let leftProblems := match left with
    | .ok _ => []
    | .error problem => [problem]
  let rightProblems := match right with
    | .ok _ => []
    | .error problem => [problem]
  { symbolNames := leftNames ++ rightNames
    nonterminalNames := leftNames
    problems := leftProblems ++ rightProblems }

def withEquations (draft : RowDraft) (detail : RowDraft) : RowDraft :=
  { draft with
    attributeNames := detail.attributeNames
    rule := detail.rule
    problems := draft.problems ++ detail.problems }

def readEquations (configuration : Configuration) (symbolCount : Nat) :
    Option (List Char) → Except Fault (List Equation)
  | none => .ok []
  | some text => (pieces ';' text).mapM (Equation.read configuration symbolCount)

def readRule (configuration : Configuration) (rule : List Char) (equations : Option (List Char)) :
    Except Fault RowDraft :=
  match arrowPieces rule with
  | [leftText, rightText] =>
    let left := readLeftSide rule leftText
    let right := readRightSide rightText
    match left, right with
    | .ok name, .ok names => do
      let read ← readEquations configuration (names.length + 1) equations
      pure ((ofSides left right).withEquations (ofEquations (name :: names) read))
    | _, _ => .ok (ofSides left right)
  | _ => .ok { problems := [⟨stripped rule, .notOneArrow⟩] }

/-- Reads a row that is not blank. -/
def read (configuration : Configuration) (row : List Char) : Except Fault RowDraft := do
  let parts := rowParts row
  let draft ← readRule configuration parts.rule parts.equations
  if parts.severalSeparators then
    pure { draft with problems := ⟨stripped row, .severalSeparators⟩ :: draft.problems }
  else pure draft

end RowDraft
end AttributeGrammar
