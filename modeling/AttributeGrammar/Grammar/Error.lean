/-! Errors recorded in a grammar, by cause, and their wording.
-/
namespace AttributeGrammar

/-- The characters that no symbol may contain. -/
def forbiddenInSymbols : List Char := ['[', ']', ';', '=']

inductive Reason where
  | severalSeparators
  | notOneArrow
  | leftSideMissing
  | leftSideForbidden
  | leftSideSeveral
  | rightSideForbidden
  | equalsMissing
  | equalsSeveral
  | targetMalformed
  | targetSeveral
  | indexBeyondRule (half : String)
  | targetUnresolved
  | note (text : String)
deriving DecidableEq, Repr

def forbiddenText : String :=
  String.intercalate " " (forbiddenInSymbols.map fun c => String.ofList [c])

def Reason.message : Reason → String
  | severalSeparators => "一行中只能有一个分隔符 ':'。"
  | notOneArrow => "产生式必须由一个箭头 '->' 分隔。"
  | leftSideMissing => "产生式左部缺少非终结符。"
  | leftSideForbidden => "字符 '" ++ forbiddenText ++ "' 不能用作（非）终结符。"
  | leftSideSeveral => "产生式左部只能有一个非终结符。"
  | rightSideForbidden =>
    "字符 '" ++ forbiddenText ++ "' 不能用作（非）终结符。是否忘记了用 ':' 分隔产生式和属性方程？"
  | equalsMissing => "属性方程必须包含 '='。"
  | equalsSeveral => "一个方程中只能有一个等号 '='。"
  | targetMalformed => "方程左边的属性格式错误。"
  | targetSeveral => "方程左边只能有一个属性。"
  | indexBeyondRule half => "'" ++ half ++ "' 中的下标超出了产生式的符号个数。"
  | targetUnresolved => "这个函数中出现了意外的错误，请连同所用的文法一起报告。"
  | note text => text

/-- What is wrong with a fragment of a row or a rule. -/
structure Problem where
  fragment : String
  reason : Reason
deriving DecidableEq, Repr

/-- Lines and rules count from 0 here and from 1 in the wording. -/
inductive GrammarError where
  | emptyText
  | inLine (line : Int) (problem : Problem)
  | inRule (rule : Int) (problem : Problem)
deriving DecidableEq, Repr

/-- The number of the line or rule as it is written. -/
def GrammarError.number : GrammarError → Int
  | emptyText => 0
  | inLine line _ => line + 1
  | inRule rule _ => rule + 1

def Problem.text (problem : Problem) : String :=
  "'" ++ problem.fragment ++ "'  " ++ problem.reason.message

def GrammarError.text : GrammarError → String
  | emptyText => "文法输入为空。"
  | error@(inLine _ problem) => "第 " ++ toString error.number ++ " 行: " ++ problem.text
  | error@(inRule _ problem) => "产生式 " ++ toString error.number ++ ": " ++ problem.text

end AttributeGrammar
