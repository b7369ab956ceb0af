import AttributeGrammar.Study

/-! The messages that reading and analysing a text leave in the log.
-/
namespace AttributeGrammar

inductive Severity where
  | debug
  | info
deriving DecidableEq, Repr

def Severity.name : Severity → String
  | debug => "DEBUG"
  | info => "INFO"

structure LogLine where
  source : String
  severity : Severity
  message : String
deriving DecidableEq, Repr

namespace Report

def parserLog : String := "attrsys.parser"

def analysisLog : String := "attrsys.acyclicity"

def errorLine? : GrammarError → Option LogLine
  | .inLine line problem => some ⟨parserLog, .debug,
      "第 " ++ toString (line + 1) ++ " 行解析错误: " ++ problem.reason.message⟩
  | _ => none

def cycleLines (study : Study) (round number : Nat) : Except Fault (List LogLine) := do
  match study.grammar.rules[number]?, (study.analysis.rule number).history[round]? with
  | some rule, some snapshot => do
    let written ← rule.text
    pure (snapshot.cycleStarts.map fun start =>
      ⟨analysisLog, .debug, "产生式 " ++ written ++ " 中属性 " ++ start.text ++ " 处于环上"⟩)
  | _, _ => pure []

def roundLines (study : Study) (round : Nat) (stable : Bool) : Except Fault (List LogLine) := do
  let numbers := study.grammar.nonterminals.values.flatten
  let cycles ← numbers.mapM (cycleLines study round)
  pure (cycles.flatten ++ [⟨analysisLog, .debug, "第 " ++ toString round ++ " 轮迭代结束，" ++
    (if stable then "稳定" else "不稳定")⟩])

def analysisLines (study : Study) : Except Fault (List LogLine) := do
  let marks := study.analysis.stability.marks
  let rounds ← marks.zipIdx.mapM fun (stable, round) => roundLines study round stable
  pure (rounds.flatten ++ [⟨analysisLog, .info, "共 " ++ toString marks.length ++ " 轮迭代，文法" ++
    (if study.analysis.acyclic then "是" else "不是") ++ "强无环的"⟩])

/-- The log of a study that was read at once; an empty text leaves nothing in it. -/
def logLines (reading : Study.Reading) (study : Study) : Except Fault (List LogLine) :=
  let grammar := study.grammar
  let parsing := grammar.errors.filterMap errorLine?
  if grammar.errors.contains .emptyText || !reading.analyze then .ok parsing
  else if reading.analyzes grammar then (analysisLines study).map (parsing ++ ·)
  else .ok (parsing ++ [⟨parserLog, .info,
    "文法中有 " ++ toString grammar.errors.length ++ " 个错误，跳过强无环性计算"⟩])

end Report
end AttributeGrammar
