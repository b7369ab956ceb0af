import AttributeGrammar.Study
import AttributeGrammar.Text.Quoted

/-! What is shown on a console: lines, panels and tables, with style tags in square brackets.
-/
namespace AttributeGrammar

/-- A text that is to be shown; its square brackets may hold style tags, unless it is plain. -/
structure Caption where
  points : List Text.CodePoint
  isStyled : Bool
deriving DecidableEq, Repr

namespace Caption

def styled (text : String) : Caption := ⟨Text.points text, true⟩

def plain (text : String) : Caption := ⟨Text.points text, false⟩

end Caption

/-- The titles of panels and tables and the names of columns are styled. -/
inductive Shown where
  | line (caption : Caption)
  | panel (title : Option String) (body : Caption)
  | table (title : Option String) (columns : List String) (rows : List (List Caption))
  | json (text : String)
  | prompt (text : String)
deriving DecidableEq, Repr

namespace Report

def yesNo (value : Bool) : String := if value then "[green]是[/green]" else "[red]否[/red]"

def fault (message : String) : Shown :=
  .line (.styled ("[bold red]错误: " ++ message ++ "[/bold red]"))

def success (message : String) : Shown :=
  .line (.styled ("[bold green]✓ " ++ message ++ "[/bold green]"))

def information (message : String) : Shown :=
  .line (.styled ("[bold cyan]ℹ " ++ message ++ "[/bold cyan]"))

def names (values : List String) : String := Text.quotedList (Text.sorted values)

/-- The attributes of each symbol; those completed from other places are in italics. -/
def symbolAttributes (symbol : Symbol) (place : Nat) : String :=
  let shown := symbol.attributes.entries.map fun entry =>
    if entry.2.indirect then "[italic]" ++ entry.1 ++ "[/italic]" else entry.1
  symbol.name ++ "[" ++ toString place ++ "]: " ++
    (if shown.isEmpty then "∅" else String.intercalate ", " shown)

def ruleRow (grammar : Grammar) (rule : Rule) (number : Nat) : Except Fault (List String) := do
  let written ← rule.text
  let attributeLines := rule.symbols.zipIdx.map fun (symbol, place) => symbolAttributes symbol place
  let count := match grammar.elementCounts[number]? with
    | some count => toString count
    | none => "-"
  pure [toString number, written, String.intercalate "\n" attributeLines, count]

def rulesTable (grammar : Grammar) : Except Fault Shown := do
  let rows ← grammar.rules.zipIdx.mapM fun (rule, number) => ruleRow grammar rule number
  pure (.table (some "产生式") ["编号", "产生式", "符号的属性", "结点数"]
    (rows.map fun row => row.map .styled))

def grammarShown (grammar : Grammar) : Except Fault (List Shown) := do
  let body := "非终结符: " ++ names grammar.nonterminalNames ++ "\n终结符: " ++
    names grammar.terminalNames ++ "\n属性: " ++ names grammar.attributeNames
  let table ← rulesTable grammar
  pure [.panel (some "[bold magenta]属性文法信息[/bold magenta]") (.plain body), .line (.styled "\n"),
    table]

/-- Bell, backspace, vertical tab, form feed and carriage return are lost in plain text. -/
def isLost (c : Char) : Bool := ['\x07', '\x08', '\x0b', '\x0c', '\r'].contains c

def shownPlain (text : String) : Caption :=
  .plain (String.ofList (text.toList.filter fun c => !isLost c))

def errorsShown (errors : List GrammarError) : List Shown :=
  [.line (.styled "\n"), .table (some "文法错误") ["序号", "错误"]
    (errors.zipIdx.map fun (error, place) =>
      [.styled (toString (place + 1)), shownPlain error.text])]

/-- One row for a rule; the nonterminal is described in the row of its first rule. -/
def roundRow (study : Study) (round : Int) (nonterminal : String) (snapshot : NonterminalRound)
    (number place : Nat) : Except Fault (List String) := do
  let rule ← match study.grammar.rules[number]? with
    | some rule => pure rule
    | none => .error .itemAbsent
  let ruleSnapshot ← Sequence.item (study.analysis.rule number).history round
  let written ← rule.text
  let first := place == 0
  pure [if first then nonterminal else "", written,
    Relations.display true ruleSnapshot.redecorated,
    Relations.display false ruleSnapshot.projections,
    yesNo ruleSnapshot.cycleFound,
    if first then Relations.display false snapshot.relations else "",
    if first then yesNo snapshot.stable else ""]

def nonterminalRows (study : Study) (round : Int) (entry : String × List Nat) :
    Except Fault (List (List String)) := do
  let snapshot ← Sequence.item (study.analysis.history entry.1) round
  entry.2.zipIdx.mapM fun (number, place) => roundRow study round entry.1 snapshot number place

def roundColumns : List String :=
  ["非终结符", "产生式", "重新装饰的关系", "根投影", "发现环", "R(X)", "稳定"]

def roundShown (study : Study) (round : Int) : Except Fault (List Shown) := do
  let unstable ← study.analysis.stability.isUnstable round
  let rows ← study.grammar.nonterminals.entries.mapM (nonterminalRows study round)
  pure [.line (.styled "\n"),
    .table (some ("第 " ++ toString round ++ " 轮迭代")) roundColumns
      (rows.flatten.map fun row => row.map .styled),
    .line (.styled ("本轮是否稳定: " ++ yesNo (!unstable)))]

/-- All rounds, or those before the first fault and the fault. -/
def roundsShown (study : Study) : List Nat → List Shown × Option Fault
  | [] => ([], none)
  | round :: rest =>
    match roundShown study round with
    | .error fault => ([], some fault)
    | .ok shown =>
      let others := roundsShown study rest
      (shown ++ others.1, others.2)

def allRoundsShown (study : Study) : List Shown × Option Fault :=
  roundsShown study (List.range study.analysis.stability.roundCount)

def verdictShown (study : Study) : Shown :=
  let count := study.analysis.stability.roundCount
  if count == 0 then information "尚未计算强无环性"
  else if study.analysis.acyclic then
    success ("经过 " ++ toString count ++ " 轮迭代，该属性文法是强无环的。")
  else .line (.styled ("\n[bold red]✗ 经过 " ++ toString count ++
    " 轮迭代，该属性文法不是强无环的。[/bold red]"))

end Report
end AttributeGrammar
