import AttributeGrammar.Text.Encoded

/-! What can stop a computation, by cause, and the wording of each cause.
-/
namespace AttributeGrammar
open Text

inductive FileFault where
  | absent
  | directory
  | throughFile
  | nameTooLong
deriving DecidableEq, Repr

inductive LibraryFault where
  | malformed
  | notArray
  | noGrammar
  | titleMissing (number : Nat)
  | rulesMissing (number : Nat)
  | rulesNotArray (number : Nat)
deriving DecidableEq, Repr

inductive Fault where
  | numeralTooLong (digits : Nat)
  | numberTooLong
  | notNumeral (text : String)
  | itemAbsent
  | placeAbsent
  | indexTooWide
  | attributeAbsent
  | notCollection
  | notComparable
  | notJson
  | nestedTooDeep
  | roundNegative (round : Int)
  | previousUnclear (nonterminal : String) (snapshots : Nat) (round : Int)
  | roundAbsent (rule round : Int)
  | roundsExhausted
  | levelUnknown (level : String)
  | dotMalformed (argument : String)
  | exampleAbsent (available : Nat)
  | optionEmptied
  | nullByte
  | file (fault : FileFault) (path : String)
  | undecodable (error : EncodingError)
  | library (fault : LibraryFault)
  | halfUnit
  | inputEnded
  | notShown
deriving DecidableEq, Repr

def FileFault.number : FileFault → Nat
  | absent => 2
  | directory => 21
  | throughFile => 20
  | nameTooLong => 36

def FileFault.message : FileFault → String
  | absent => "No such file or directory"
  | directory => "Is a directory"
  | throughFile => "Not a directory"
  | nameTooLong => "File name too long"

def LibraryFault.message : LibraryFault → String
  | malformed => "JSON文件格式错误"
  | notArray => "JSON文件的顶层必须是数组。"
  | noGrammar => "没有提供任何属性文法。"
  | titleMissing number => "第 " ++ toString number ++ " 个文法缺少标题 'title'。"
  | rulesMissing number => "第 " ++ toString number ++ " 个文法缺少产生式 'productionRules'。"
  | rulesNotArray number => "第 " ++ toString number ++ " 个文法的产生式必须是数组。"

/-- A numeral of more digits is neither read nor written. -/
def digitLimit : Nat := 4300

def isWritable (number : Int) : Bool := number.natAbs < Nat.pow 10 digitLimit

/-- The most characters of a quoted text that are shown when it is no numeral. -/
def quotedLimit : Nat := 200

def limitMessage (detail : String) : String :=
  "Exceeds the limit (" ++ toString digitLimit ++ " digits) for integer string conversion" ++ detail ++
    "; use sys.set_int_max_str_digits() to increase the limit"

def Fault.message : Fault → String
  | numeralTooLong digits => limitMessage (": value has " ++ toString digits ++ " digits")
  | numberTooLong => limitMessage ""
  | notNumeral text => "invalid literal for int() with base 10: " ++
    String.ofList ((quoted text).toList.take quotedLimit)
  | itemAbsent => "list index out of range"
  | placeAbsent => "list assignment index out of range"
  | indexTooWide => "cannot fit 'int' into an index-sized integer"
  | attributeAbsent => "no such attribute"
  | notCollection => "not a collection"
  | notComparable => "not comparable"
  | notJson => "not a JSON text"
  | nestedTooDeep => "maximum recursion depth exceeded"
  | roundNegative round => "迭代下标不能为负数: " ++ toString round
  | previousUnclear nonterminal snapshots round =>
    "非终结符 " ++ nonterminal ++ " 有 " ++ toString snapshots ++ " 个迭代快照，无法确定第 " ++
      toString round ++ " 轮的上一轮"
  | roundAbsent rule round =>
    "产生式 " ++ toString rule ++ " 没有第 " ++ toString round ++ " 轮迭代"
  | roundsExhausted => "no stable round within the limit"
  | levelUnknown level => "Unknown level: " ++ quoted level
  | dotMalformed argument => "--dot 参数格式错误: " ++ argument
  | exampleAbsent available => "示例库中只有 " ++ toString available ++ " 个文法"
  | optionEmptied => "an option without its value"
  | nullByte => "embedded null byte"
  | file fault path =>
    "[Errno " ++ toString fault.number ++ "] " ++ fault.message ++ ": " ++ quoted path
  | undecodable error => error.message
  | library fault => fault.message
  | halfUnit => "half a pair of units in a grammar"
  | inputEnded => "no more input"
  | notShown => "tags that do not match"

/-- The result of a computation that keeps what it had done when a fault stops it. -/
inductive Outcome (State : Type) where
  | done (state : State)
  | stopped (fault : Fault) (state : State)
deriving Repr

namespace Outcome
variable {State : Type}

def state : Outcome State → State
  | done state => state
  | stopped _ state => state

def fault? : Outcome State → Option Fault
  | done _ => none
  | stopped fault _ => some fault

def andThen (outcome : Outcome State) (next : State → Outcome State) : Outcome State :=
  match outcome with
  | done state => next state
  | stopped fault state => stopped fault state

def ofFault? (fault? : Option Fault) (state : State) : Outcome State :=
  match fault? with
  | none => done state
  | some fault => stopped fault state

/-- Goes through the items until a fault stops it. -/
def through {Item : Type} (step : Item → State → Outcome State) : List Item → State → Outcome State
  | [], state => done state
  | item :: rest, state => (step item state).andThen (through step rest)

end Outcome
end AttributeGrammar
