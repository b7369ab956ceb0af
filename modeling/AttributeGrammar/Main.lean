import AttributeGrammar.CommandLine.Run

/-! The program on a real console: it opens the one file that the arguments name, asks at the menu
until a choice is made, and writes what is shown with its style tags.
-/
namespace AttributeGrammar.CommandLine

def roundLimit : Nat := 1000000

def convention : Convention := .newer

/-- How deep the JSON of a library may nest. -/
def nestingLimit : Nat := 900

def usage : String := String.intercalate "\n"
  ["用法: [-h] [--example N] [--library PATH] [--json] [--dot RULE[:ITERATION]]",
    "      [--log-level DEBUG|INFO|WARNING|ERROR] [grammar_file]"]

def faultOfError (path : String) : IO.Error → Fault
  | .inappropriateType _ code _ =>
    .file (if code == 21 then .directory else .throughFile) path
  | _ => .file .absent path

def openFile (path : String) : IO (Except Fault (List UInt8)) := do
  if path.toList.contains '\x00' then return .error .nullByte
  try return .ok (← IO.FS.readBinFile path).toList
  catch error => return .error (faultOfError path error)

/-- The path that the program opens, as it will ask for it. -/
def neededPath? (arguments : Arguments) : Option String :=
  match arguments.grammarFile with
  | none | some "" =>
    match arguments.library with
    | some (.value path) => some (plainPath path)
    | _ => none
  | some path => some path

/-- The text of a caption with its style tags. -/
def written (caption : Caption) : String := Text.shownText caption.points

def writeShown : Shown → IO Unit
  | .line caption => IO.println (written caption)
  | .json text => IO.println text
  | .panel title body => IO.println ((title.map (· ++ "\n")).getD "" ++ written body)
  | .prompt text => do
    IO.print text
    (← IO.getStdout).flush
  | .table title columns rows => do
    if let some title := title then IO.println title
    for row in columns :: rows.map (·.map written) do
      IO.println (String.intercalate "\t" row)

def trimEnding (line : String) : String := String.ofList (Text.dropEnd (· == '\n') line.toList)

partial def askMenu (library : Library) : IO (Except Fault (List Text.CodePoint)) := do
  writeShown (menuPrompt library)
  let line ← (← IO.getStdin).getLine
  if line.isEmpty then return .error .inputEnded
  match chosen? library (trimEnding line) with
  | some entry =>
    writeShown (chosenShown entry)
    return .ok entry.text
  | none =>
    writeShown menuRefusal
    askMenu library

def textOfOrigin : Origin → IO (Except Fault (List Text.CodePoint))
  | .given text => pure text
  | .menu library => do
    (menuShown library).forM writeShown
    askMenu library

def finish : Ending → IO UInt32
  | .exited code => pure code.toUInt32
  | .refused refusal => do
    IO.eprintln usage
    pure refusal.exitCode.toUInt32
  | .failed fault => do
    IO.eprintln fault.message
    pure 1

def runOn (arguments : Arguments) : IO UInt32 := do
  let opened ← match neededPath? arguments with
    | some path => openFile path
    | none => pure (.error .nullByte)
  let host : Host :=
    { convention := convention, shows := fun _ => true, nesting := nestingLimit,
      opening := fun _ => opened }
  let text ← textOfOrigin (origin arguments host)
  let reading : Study.Reading :=
    { configuration := configure arguments {}, roundLimit := roundLimit }
  let (shown, ending) := conclude reading arguments text
  shown.forM writeShown
  finish ending

end AttributeGrammar.CommandLine

open AttributeGrammar.CommandLine in
def main (argv : List String) : IO UInt32 :=
  match Arguments.ofList convention argv with
  | .error refusal => finish (.refused refusal)
  | .ok arguments => runOn arguments
