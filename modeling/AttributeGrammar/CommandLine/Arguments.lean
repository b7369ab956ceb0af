import AttributeGrammar.Text.Numeral

/-! The arguments of the command line.
An option may be shortened as long as it stays unambiguous, and takes its value from the next
argument or from behind an equals sign. What looks like a negative number, holds a space or stands
behind `--` is no option. Two conventions differ in what may be joined to an option.
-/
namespace AttributeGrammar.CommandLine
open Text

/-- By the older convention the separator `--` that is joined to an option is dropped, which leaves the
option emptied, and all that is joined to `-h` has to be letters `h`. By the newer one the separator is
a value like any other, and other letters behind `-h` are left aside. -/
inductive Convention where
  | older
  | newer
deriving DecidableEq, Repr

/-- The value of an option, unless it was emptied. -/
inductive Given (Value : Type) where
  | value (value : Value)
  | emptied
deriving DecidableEq, Repr

structure Arguments where
  grammarFile : Option String := none
  exampleNumber : Option (Given Int) := none
  library : Option (Given String) := none
  json : Bool := false
  dot : Option String := none
  logLevel : Option String := none
deriving DecidableEq, Repr

/-- Help was asked for, or the arguments are not in order. -/
inductive Refusal where
  | help
  | usage
deriving DecidableEq, Repr

def Refusal.exitCode : Refusal → Nat
  | help => 0
  | usage => 2

inductive Setting where
  | help
  | exampleNumber
  | library
  | json
  | dot
  | logLevel
deriving DecidableEq, Repr

def settings : List (List Char × Setting) :=
  [("-h".toList, .help), ("--help".toList, .help), ("--example".toList, .exampleNumber),
    ("--library".toList, .library), ("--json".toList, .json), ("--dot".toList, .dot),
    ("--log-level".toList, .logLevel)]

def logLevelChoices : List String := ["DEBUG", "INFO", "WARNING", "ERROR"]

inductive Token where
  | operand (text : String)
  | separator
  | setting (setting : Setting) (value : Option String)
  | helpCluster (others : List Char)
  | unknown
deriving DecidableEq, Repr

def areDigits (text : List Char) : Bool := text.all fun c => (digitValue? c).isSome

/-- A minus sign, then digits or a fraction; one line feed may follow. -/
def isNegativeNumber (text : List Char) : Bool :=
  let line := if text.getLast? == some '\n' then text.dropLast else text
  match line with
  | '-' :: rest =>
    match rest.span fun c => (digitValue? c).isSome with
    | (digits, []) => !digits.isEmpty
    | (_, '.' :: fraction) => !fraction.isEmpty && areDigits fraction
    | _ => false
  | _ => false

/-- The part before the first equals sign, and the part behind it. -/
def splitValue (text : List Char) : List Char × Option (List Char) :=
  match text.span (· != '=') with
  | (name, '=' :: value) => (name, some value)
  | (name, _) => (name, none)

def namedSetting? (name : List Char) : Option Setting :=
  (settings.find? fun known => known.1 == name).map Prod.snd

/-- An argument with a leading minus sign that is no full name of an option. -/
def tokenOfDashed (text : List Char) : Except Refusal Token :=
  let (name, value) := splitValue text
  let otherwise : Token :=
    if isNegativeNumber text || text.contains ' ' then .operand (String.ofList text) else .unknown
  match value, name, namedSetting? name with
  | some given, ['-', 'h'], _ => .ok (.helpCluster ('=' :: given))
  | some given, _, some setting => .ok (.setting setting (some (String.ofList given)))
  | _, _, _ =>
    match text with
    | '-' :: '-' :: _ =>
      match settings.filter fun known => name.isPrefixOf known.1 with
      | [] => .ok otherwise
      | [known] => .ok (.setting known.2 (value.map String.ofList))
      | _ => .error .usage
    | '-' :: 'h' :: others => .ok (.helpCluster others)
    | _ => .ok otherwise

def tokenOf (argument : String) : Except Refusal Token :=
  let text := argument.toList
  match namedSetting? text, text with
  | some setting, _ => .ok (.setting setting none)
  | none, '-' :: _ :: _ => tokenOfDashed text
  | none, _ => .ok (.operand argument)

def tokens : List String → Except Refusal (List Token)
  | [] => .ok []
  | argument :: rest =>
    if argument == "--" then .ok (.separator :: rest.map .operand)
    else do
      let first ← tokenOf argument
      let others ← tokens rest
      pure (first :: others)

/-- What the older convention makes of the text joined to `-h`, with or without an equals sign. -/
def olderRefusal (joined : List Char) : Refusal :=
  let letters := match joined with
    | '=' :: letters => letters
    | letters => letters
  if !letters.isEmpty && letters.all (· == 'h') then .help else .usage

/-- By the newer convention only a sign that belongs to options stands in the way of `-h`. -/
def newerRefusal : List Char → Refusal
  | [] => .help
  | 'h' :: rest => newerRefusal rest
  | c :: _ => if c == '=' || c == '-' then .usage else .help

def clusterRefusal : Convention → List Char → Refusal
  | .older => olderRefusal
  | .newer => newerRefusal

namespace Arguments

/-- An emptied `--dot` or `--log-level` counts as not given. -/
def withEmptied (setting : Setting) (arguments : Arguments) : Except Refusal Arguments :=
  match setting with
  | .help | .json => .error .usage
  | .library => .ok { arguments with library := some .emptied }
  | .dot => .ok { arguments with dot := none }
  | .exampleNumber => .ok { arguments with exampleNumber := some .emptied }
  | .logLevel => .ok { arguments with logLevel := none }

def withValue (setting : Setting) (value : String) (arguments : Arguments) :
    Except Refusal Arguments :=
  match setting with
  | .help | .json => .error .usage
  | .library => .ok { arguments with library := some (.value value) }
  | .dot => .ok { arguments with dot := some value }
  | .exampleNumber =>
    match integer value with
    | .ok number => .ok { arguments with exampleNumber := some (.value number) }
    | .error _ => .error .usage
  | .logLevel =>
    if logLevelChoices.contains value then .ok { arguments with logLevel := some value }
    else .error .usage

def withGiven (convention : Convention) (setting : Setting) (value : String)
    (arguments : Arguments) : Except Refusal Arguments :=
  if convention == .older && value == "--" then arguments.withEmptied setting
  else arguments.withValue setting value

/-- The one operand is the grammar file, and a separator may stand on either side of it; `isOpen` says
that neither came yet and `surplus` that an argument was left over. -/
def collect (convention : Convention) (isOpen surplus : Bool) :
    List Token → Arguments → Except Refusal Arguments
  | [], arguments => if surplus then .error .usage else .ok arguments
  | .unknown :: rest, arguments => collect convention isOpen true rest arguments
  | .helpCluster others :: _, _ => .error (clusterRefusal convention others)
  | .setting setting (some value) :: rest, arguments => do
    collect convention isOpen surplus rest (← arguments.withGiven convention setting value)
  | .setting .help none :: _, _ => .error .help
  | .setting .json none :: rest, arguments =>
    collect convention isOpen surplus rest { arguments with json := true }
  | .setting setting none :: .operand value :: rest, arguments => do
    collect convention isOpen surplus rest (← arguments.withGiven convention setting value)
  | .setting _ none :: _, _ => .error .usage
  | .operand file :: .separator :: rest, arguments =>
    if isOpen then collect convention false surplus rest { arguments with grammarFile := some file }
    else collect convention false true rest arguments
  | .operand file :: rest, arguments =>
    if isOpen then collect convention false surplus rest { arguments with grammarFile := some file }
    else collect convention false true rest arguments
  | .separator :: .operand file :: rest, arguments =>
    if isOpen then collect convention false surplus rest { arguments with grammarFile := some file }
    else collect convention false true rest arguments
  | .separator :: rest, arguments => collect convention false (surplus || !isOpen) rest arguments

def ofList (convention : Convention) (arguments : List String) : Except Refusal Arguments := do
  collect convention true false (← tokens arguments) {}

end Arguments
end AttributeGrammar.CommandLine
