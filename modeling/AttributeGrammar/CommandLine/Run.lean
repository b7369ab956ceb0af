import AttributeGrammar.CommandLine.Arguments
import AttributeGrammar.CommandLine.Directory
import AttributeGrammar.CommandLine.Menu
import AttributeGrammar.DependencyGraph.Dot
import AttributeGrammar.Report.Data

/-! What the program does with its arguments, the files it opens and the lines typed at its menu.
-/
namespace AttributeGrammar.CommandLine
open Text

/-- The rule, and the round if there is a colon, whose dependency graph is wanted. -/
def dotTarget (argument : String) : Except Fault (Int × Option Int) :=
  match (Text.pieces ':' argument.toList).map String.ofList with
  | [rule] => do pure (← Text.integer rule, none)
  | [rule, round] => do
    let rule ← Text.integer rule
    pure (rule, some (← Text.integer round))
  | _ => .error (.dotMalformed argument)

def dotTarget? : Option String → Except Fault (Option (Int × Option Int))
  | none | some "" => .ok none
  | some argument => (dotTarget argument).map some

/-- How the program ended: with an exit code, or by a fault that it does not report itself. -/
inductive Ending where
  | exited (code : Nat)
  | refused (refusal : Refusal)
  | failed (fault : Fault)
deriving DecidableEq, Repr

def exitDone : Nat := 0

def exitGrammarErrors : Nat := 1

def exitBadInput : Nat := 2

/-- What opening a path gives. -/
abbrev Opening := String → Except Fault (List UInt8)

/-- The program's surroundings: how options are joined, what the console can show, how deep JSON may
nest, and the files. -/
structure Host where
  convention : Convention
  shows : Shown → Bool
  nesting : Nat
  opening : Opening

/-- The library in a file, or the bundled one when no file is given. -/
def openLibrary (nesting : Nat) (opening : Opening) : Option String → Except Fault Library
  | none => .ok .bundled
  | some path => opening (plainPath path) >>= Library.ofBytes nesting

def loadLibrary (nesting : Nat) (opening : Opening) (path? : Option String) : Except Fault Library :=
  Library.orFallback (openLibrary nesting opening path?)

def givenLibrary (host : Host) : Option (Given String) → Except Fault Library
  | none => loadLibrary host.nesting host.opening none
  | some (.value path) => loadLibrary host.nesting host.opening (some path)
  | some .emptied => .error .optionEmptied

def exampleNumbered (library : Library) (number : Int) : Except Fault Example :=
  if 1 ≤ number ∧ number ≤ library.size then library.get (number - 1)
  else .error (.exampleAbsent library.size)

/-- Where the text of the grammar comes from; the menu has the choice among a library. -/
inductive Origin where
  | given (text : Except Fault (List CodePoint))
  | menu (library : Library)

def originInLibrary (arguments : Arguments) (library : Library) : Origin :=
  match arguments.exampleNumber with
  | some .emptied => .given (.error .optionEmptied)
  | some (.value number) =>
    .given ((exampleNumbered library number).map Example.text)
  | none => .menu library

def openText (opening : Opening) (path : String) : Except Fault (List CodePoint) :=
  (opening path >>= Study.fileText).map fun text => text.map .character

def origin (arguments : Arguments) (host : Host) : Origin :=
  match arguments.grammarFile with
  | none | some "" =>
    match givenLibrary host arguments.library with
    | .error fault => .given (.error fault)
    | .ok library => originInLibrary arguments library
  | some path => .given (openText host.opening path)

/-- What the menu shows, and the text chosen by the lines typed at it. -/
def Origin.resolve (lines : List String) : Origin → List Shown × Except Fault (List CodePoint)
  | given text => ([], text)
  | menu library =>
    let (shown, entry) := choose library lines
    (menuShown library ++ shown, entry.map Example.text)

/-- A fault of the input is reported, unless the input ended at the menu, an option was emptied, or
JSON nests too deep. -/
def isReported : Fault → Bool
  | .inputEnded | .optionEmptied | .nestedTooDeep => false
  | _ => true

def reported (fault : Fault) : List Shown × Ending :=
  ([Report.fault fault.message], .exited exitBadInput)

def withFault : Except Fault (List Shown) → List Shown × Ending
  | .ok shown => (shown, .exited exitDone)
  | .error fault => ([], .failed fault)

def showStudy (study : Study) : List Shown × Ending :=
  match Report.grammarShown study.grammar with
  | .error fault => ([], .failed fault)
  | .ok shown =>
    match Report.allRoundsShown study with
    | (rounds, some fault) => (shown ++ rounds, .failed fault)
    | (rounds, none) => (shown ++ rounds ++ [Report.verdictShown study], .exited exitDone)

/-- Shows what the arguments ask for, of a grammar that was read. -/
def showResult (arguments : Arguments) (target : Option (Int × Option Int)) (study : Study) :
    List Shown × Ending :=
  if study.grammar.hasErrors then
    (Report.errorsShown study.grammar.errors, .exited exitGrammarErrors)
  else if arguments.json then
    withFault ((Report.exported (some 2) study).map fun text => [.json text])
  else match target with
    | none => showStudy study
    | some (rule, round?) =>
      match study.dependencyGraph rule round? with
      | .error fault => reported fault
      | .ok graph => ([.line (.plain (Dot.render graph))], .exited exitDone)

/-- Reads and shows the grammar of a text, or reports why there is no text. -/
def conclude (reading : Study.Reading) (arguments : Arguments)
    (text : Except Fault (List CodePoint)) : List Shown × Ending :=
  match (do pure (← text, ← dotTarget? arguments.dot)) with
  | .error fault => if isReported fault then reported fault else ([], .failed fault)
  | .ok (text, target) =>
    match Study.ofPoints reading text with
    | .error fault => ([], .failed fault)
    | .ok study => showResult arguments target study

def configure (arguments : Arguments) (configuration : Configuration) : Configuration :=
  match arguments.logLevel with
  | none | some "" => configuration
  | some level => configuration.withLogLevel level

/-- How the program ends that has this to show: early, if its console cannot show all of it. -/
def endingOn (host : Host) (shown : List Shown) (ending : Ending) : Ending :=
  if shown.all host.shows then ending else .failed .notShown

/-- The whole program: what it shows, how it ends, and the configuration it leaves. -/
structure Result where
  shown : List Shown := []
  ending : Ending
  configuration : Configuration
deriving Repr

/-- Runs on the lines that are typed at the menu, if it comes to that. -/
def run (host : Host) (reading : Study.Reading) (lines argv : List String) : Result :=
  match Arguments.ofList host.convention argv with
  | .error refusal => { ending := .refused refusal, configuration := reading.configuration }
  | .ok arguments =>
    let configuration := configure arguments reading.configuration
    let (before, text) := (origin arguments host).resolve lines
    let (after, ending) :=
      conclude { reading with configuration := configuration } arguments text
    let shown := before ++ after
    { shown := shown.takeWhile host.shows, ending := endingOn host shown ending,
      configuration := configuration }

end AttributeGrammar.CommandLine
