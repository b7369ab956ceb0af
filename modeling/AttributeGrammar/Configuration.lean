import AttributeGrammar.Fault
import AttributeGrammar.Text.UpperCase

/-! The choices that reading and analysis leave open, and the level of the log.
-/
namespace AttributeGrammar

structure Configuration where
  ignoreBlankEquations : Bool := false
  analyzeGrammarWithErrors : Bool := false
  logLevel : String := "WARNING"
deriving DecidableEq, Repr

namespace Configuration

def withLogLevel (level : String) (configuration : Configuration) : Configuration :=
  { configuration with logLevel := Text.upperCase level }

def levels : List (String × Nat) :=
  [("CRITICAL", 50), ("FATAL", 50), ("ERROR", 40), ("WARNING", 30), ("WARN", 30), ("INFO", 20),
    ("DEBUG", 10), ("NOTSET", 0)]

/-- The severity from which messages are kept; no level, or an empty one, means the configured. -/
def severity (configuration : Configuration) (level? : Option String) : Except Fault Nat :=
  let chosen := match level? with
    | none | some "" => configuration.logLevel
    | some level => level
  let level := Text.upperCase chosen
  match levels.find? fun known => known.1 == level with
  | some known => .ok known.2
  | none => .error (.levelUnknown level)

end Configuration
end AttributeGrammar
