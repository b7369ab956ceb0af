import AttributeGrammar.Analysis.Round
import AttributeGrammar.Grammar.Draft
import AttributeGrammar.Grammar.Reconciliation

/-! Reading a grammar and analysing it.
The rows are read one by one, the grammar is reconciled, and unless it has errors the rounds of the
analysis are played. Lines and bytes are other forms of the same text. What was recorded of a round, by
default the last one, can be looked up.
-/
namespace AttributeGrammar

/-- A grammar and what its analysis has recorded so far. -/
structure Study where
  grammar : Grammar := {}
  analysis : Analysis := {}
deriving DecidableEq, Repr

namespace Study

/-- Analyses the grammar on from what is recorded; a fault keeps what came before it. -/
def analyze (roundLimit : Nat) (study : Study) : Outcome Study :=
  match study.analysis.run roundLimit study.grammar with
  | .done analysis => .done { study with analysis := analysis }
  | .stopped fault analysis => .stopped fault { study with analysis := analysis }

def reconcile (study : Study) : Outcome Study :=
  match study.grammar.reconcile with
  | .done grammar => .done { study with grammar := grammar }
  | .stopped fault grammar => .stopped fault { study with grammar := grammar }

/-- How a text is read: the choices, whether to analyse, and the most rounds to play. -/
structure Reading where
  configuration : Configuration := {}
  analyze : Bool := true
  roundLimit : Nat

/-- A grammar with errors is analysed only on request. -/
def Reading.analyzes (reading : Reading) (grammar : Grammar) : Bool :=
  reading.analyze && (reading.configuration.analyzeGrammarWithErrors || !grammar.hasErrors)

def ofOutcome : Outcome Study → Except Fault Study
  | .done study => .ok study
  | .stopped fault _ => .error fault

def ofCharacters (reading : Reading) (text : List Char) : Except Fault Study :=
  if Text.isEmpty text then .ok { grammar := { errors := [.emptyText] } }
  else do
    let draft ← Grammar.ofRows reading.configuration (Text.rows text)
    let study ← ofOutcome (Study.mk draft {}).reconcile
    if reading.analyzes study.grammar then ofOutcome (study.analyze reading.roundLimit)
    else pure study

/-- A text with half a pair of units in it is not read. -/
def ofPoints (reading : Reading) (points : List Text.CodePoint) : Except Fault Study :=
  match Text.characters? points with
  | some text => ofCharacters reading text
  | none => .error .halfUnit

def ofText (reading : Reading) (text : String) : Except Fault Study :=
  ofCharacters reading text.toList

/-- The lines of a file; a byte-order mark before the first is dropped. -/
def ofLines (reading : Reading) (lines : List String) : Except Fault Study :=
  ofText reading (String.intercalate "\n" (match lines with
    | [] => []
    | first :: rest =>
      (match first.toList with
        | '\ufeff' :: unmarked => String.ofList unmarked
        | _ => first) :: rest))

/-- The text of a file: a byte-order mark is dropped and every line ending is a line feed. -/
def fileText (bytes : List UInt8) : Except Fault (List Char) :=
  match Text.decode (Text.withoutMark bytes) with
  | .ok text => .ok (Text.lineFeeds text)
  | .error error => .error (.undecodable error)

def ofBytes (reading : Reading) (bytes : List UInt8) : Except Fault Study := do
  ofCharacters reading (← fileText bytes)

/-! ### What was recorded -/

/-- Before any round there is nothing, and rounds may be counted from the end. -/
def snapshotOf? {Snapshot : Type} (history : List Snapshot) (round? : Option Int) :
    Except Fault (Option Snapshot) :=
  if history.isEmpty then .ok none
  else (Sequence.item history (round?.getD (-1))).map some

def relationsOf (study : Study) (nonterminal : String) (round? : Option Int) :
    Except Fault Relations :=
  (snapshotOf? (study.analysis.history nonterminal) round?).map fun snapshot =>
    (snapshot.map NonterminalRound.relations).getD ∅

def projectionsOf (study : Study) (rule : Int) (round? : Option Int) : Except Fault Relations :=
  match Sequence.place? study.grammar.rules.length rule with
  | none => .error (.noItemAt rule)
  | some place => (snapshotOf? (study.analysis.rule place).history round?).map fun snapshot =>
      (snapshot.map RuleRound.projections).getD ∅

/-- The transient dependencies of each symbol of a rule, attribute by attribute. -/
def redecoratedAt (study : Study) (number : Nat) (rule : Rule) : List (List Dependency) :=
  rule.symbols.zipIdx.map fun (symbol, place) => symbol.attributes.keys.flatMap fun name =>
    (study.analysis.rule number).transient ⟨place, name⟩

end Study
end AttributeGrammar
