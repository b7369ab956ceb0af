import AttributeGrammar.Proofs.Display
import AttributeGrammar.Proofs.Library

/-! How the program ends when it has nothing to ask at the menu.
Bad input and a rule or round that is missing give one exit code, a grammar with errors another one. A
reference with too many digits in the text, a library that nests too deep, and tags that the console
cannot show make it fail.
-/
namespace AttributeGrammar.CommandLine
open Text

/-- There is a grammar file, or an example is asked for. -/
def Arguments.NonInteractive (arguments : Arguments) : Prop :=
  (∃ path, arguments.grammarFile = some path ∧ path ≠ "") ∨
    ∃ number, arguments.exampleNumber = some (.value number)

def Arguments.Fileless (arguments : Arguments) : Prop :=
  arguments.grammarFile = none ∨ arguments.grammarFile = some ""

/-- The text of the file, with line feeds for its line endings, or that of the numbered example. -/
inductive Provides (arguments : Arguments) (host : Host) : List CodePoint → Prop
  | file {path : String} {bytes : List UInt8} {text : List Char}
      (named : arguments.grammarFile = some path) (nonempty : path ≠ "")
      (opened : host.opening path = .ok bytes) (encoded : withoutMark bytes = encode text) :
      Provides arguments host ((lineFeeds text).map .character)
  | listed {library : Library} {number : Int} {entry : Example} (fileless : arguments.Fileless)
      (loaded : givenLibrary host arguments.library = .ok library)
      (numbered : arguments.exampleNumber = some (.value number)) (positive : 1 ≤ number)
      (found : library.examples[(number - 1).toNat]? = some entry) :
      Provides arguments host entry.text

/-- The program comes to a library that nests too deep. -/
def MeetsNesting (arguments : Arguments) (host : Host) : Prop :=
  arguments.Fileless ∧ givenLibrary host arguments.library = .error .nestedTooDeep

/-- What is asked for with `--dot`: nothing, a rule, or a rule and a round. -/
inductive Targets : Option String → Option (Int × Option Int) → Prop
  | absent : Targets none none
  | empty : Targets (some "") none
  | rule {argument : String} {rule : Int} (single : ':' ∉ argument.toList)
      (read : integer argument = .ok rule) : Targets (some argument) (some (rule, none))
  | round {argument : String} {left right : List Char} {rule round : Int}
      (split : argument.toList = left ++ ':' :: right) (first : ':' ∉ left) (last : ':' ∉ right)
      (readRule : integer (String.ofList left) = .ok rule)
      (readRound : integer (String.ofList right) = .ok round) :
      Targets (some argument) (some (rule, some round))

/-- There is no text, or what is asked for with `--dot` is not in order. -/
def BadInput (arguments : Arguments) (host : Host) : Prop :=
  (∀ text, ¬ Provides arguments host text) ∨ ∀ target, ¬ Targets arguments.dot target

/-- What is wrong with the input: why there is no text, or else what is asked for with `--dot`. -/
inductive Blames (arguments : Arguments) (host : Host) (fault : Fault) : Prop
  | text (given : origin arguments host = .given (.error fault))
  | target {points : List CodePoint} (provides : Provides arguments host points)
      (wrong : dotTarget? arguments.dot = .error fault)

instance (study : Study) (rule : Int) (round? : Option Int) :
    Decidable (study.HasGraph rule round?) :=
  inferInstanceAs (Decidable (_ ∧ _))

/-- The exit code once a grammar was read. -/
def exitCode (arguments : Arguments) (target : Option (Int × Option Int)) (study : Study) : Nat :=
  if study.grammar.errors ≠ [] then exitGrammarErrors
  else if arguments.json = false ∧ ∃ wanted ∈ target, ¬ study.HasGraph wanted.1 wanted.2 then
    exitBadInput
  else exitDone

/-! ### Results whose faults are reported -/

/-- The result is a value just if it is the one that is meant, and else a fault that is reported. -/
structure Settles {Value : Type} (meant : Value → Prop) (result : Except Fault Value) : Prop where
  ok_iff : ∀ value, result = .ok value ↔ meant value
  reported : ∀ fault, result = .error fault → isReported fault = true

namespace Settles
variable {Value Other : Type} {meant : Value → Prop} {result : Except Fault Value}

private theorem of_reported (reported : ∀ fault, result = .error fault → isReported fault = true) :
    Settles (result = .ok ·) result :=
  ⟨fun _ => Iff.rfl, reported⟩

theorem refused {fault : Fault} (reported : isReported fault = true)
    (unmeant : ∀ value, ¬ meant value) : Settles meant (.error fault) :=
  ⟨fun value => ⟨nofun, fun means => absurd means (unmeant value)⟩,
    fun _ same => Except.error.inj same ▸ reported⟩

theorem found {value : Value} (only : ∀ other, value = other ↔ meant other) :
    Settles meant (.ok value) :=
  ⟨fun other => by rw [Except.ok.injEq, only other], nofun⟩

theorem congr {meant' : Value → Prop} (settles : Settles meant result)
    (same : ∀ value, meant value ↔ meant' value) : Settles meant' result :=
  ⟨fun value => (settles.ok_iff value).trans (same value), settles.reported⟩

theorem bind {next : Value → Except Fault Other} {further : Value → Other → Prop}
    (settles : Settles meant result) (after : ∀ value, Settles (further value) (next value)) :
    Settles (fun last => ∃ value, meant value ∧ further value last) (result >>= next) := by
  cases result with
  | error fault =>
    refine refused (settles.reported fault rfl) fun last => ?_
    rintro ⟨value, means, _⟩
    cases (settles.ok_iff value).mpr means
  | ok value =>
    refine ⟨fun last => ?_, (after value).reported⟩
    change next value = .ok last ↔ _
    rw [(after value).ok_iff]
    constructor
    · exact fun goes => ⟨value, (settles.ok_iff value).mp rfl, goes⟩
    · rintro ⟨other, means, goes⟩
      obtain rfl := Except.ok.inj ((settles.ok_iff other).mpr means)
      exact goes

theorem map (settles : Settles meant result) (change : Value → Other) :
    Settles (fun last => ∃ value, meant value ∧ change value = last) (result.map change) :=
  settles.bind fun _ => .found fun _ => Iff.rfl

end Settles

/-! ### The arguments -/

/-- By the newer convention an option keeps its value. -/
theorem library_withGiven {arguments changed : Arguments} {setting : Setting} {value : String}
    (kept : arguments.library ≠ some .emptied)
    (given : arguments.withGiven .newer setting value = .ok changed) :
    changed.library ≠ some .emptied := by
  change arguments.withValue setting value = .ok changed at given
  unfold Arguments.withValue at given
  split at given
  · cases given
  · cases given
  · obtain rfl := Except.ok.inj given
    simp
  · obtain rfl := Except.ok.inj given
    exact kept
  · split at given
    · obtain rfl := Except.ok.inj given
      exact kept
    · cases given
  · split at given
    · obtain rfl := Except.ok.inj given
      exact kept
    · cases given

private theorem library_collect {isOpen surplus : Bool} {tokens : List Token}
    {arguments last : Arguments} (kept : arguments.library ≠ some .emptied)
    (collected : Arguments.collect .newer isOpen surplus tokens arguments = .ok last) :
    last.library ≠ some .emptied := by
  fun_induction Arguments.collect .newer isOpen surplus tokens arguments with
  | case1 | case4 | case6 | case9 => cases collected
  | case2 => exact Except.ok.inj collected ▸ kept
  | case5 _ _ _ _ _ _ ih =>
    obtain ⟨next, given, collected⟩ := bind_success collected
    exact ih next (library_withGiven kept given) collected
  | case8 _ _ _ _ _ _ _ _ ih =>
    obtain ⟨next, given, collected⟩ := bind_success collected
    exact ih next (library_withGiven kept given) collected
  | _ =>
    -- No value is taken here.
    rename_i ih
    exact ih kept collected

private theorem library_of_newer {argv : List String} {arguments : Arguments}
    (accepted : Arguments.ofList .newer argv = .ok arguments) :
    arguments.library ≠ some .emptied := by
  obtain ⟨tokens, _, collected⟩ := bind_success accepted
  exact library_collect (by simp) collected

/-! ### The text -/

variable {arguments : Arguments} {host : Host}

private theorem settles_opening (opens : Opens host.opening) (path : String) :
    Settles (host.opening path = .ok ·) (host.opening path) := by
  refine .of_reported fun fault failed => ?_
  rcases opens path fault failed with ⟨_, _, rfl⟩ | ⟨rfl, _⟩ <;> rfl

private theorem settles_fileText (bytes : List UInt8) : Settles (fun text => ∃ written,
    withoutMark bytes = encode written ∧ lineFeeds written = text) (Study.fileText bytes) := by
  simp only [← decode_eq_ok_iff]
  unfold Study.fileText
  cases decode (withoutMark bytes) with
  | error error => exact .refused rfl (by simp)
  | ok text => exact .found (by simp)

private theorem settles_exampleNumbered (library : Library) (number : Int) : Settles (fun entry =>
    1 ≤ number ∧ library.examples[(number - 1).toNat]? = some entry)
      (exampleNumbered library number) := by
  by_cases positive : 1 ≤ number
  · obtain ⟨place, rfl⟩ : ∃ place : Nat, number = place + 1 := ⟨(number - 1).toNat, by omega⟩
    have within : (place : Int) + 1 ≤ library.size ↔ place < library.examples.length := by
      rw [Library.size]
      omega
    simp only [exampleNumbered, positive, within, true_and, Int.add_sub_cancel, Int.toNat_natCast,
      Library.get, Sequence.item, Sequence.item?_ofNat]
    by_cases inside : place < library.examples.length
    · rw [if_pos inside, List.getElem?_eq_getElem inside]
      exact .found (by simp)
    · rw [if_neg inside]
      exact .refused rfl (by simp [List.getElem?_eq_none (Nat.le_of_not_lt inside)])
  · rw [exampleNumbered, if_neg (fun range => positive range.1)]
    exact .refused rfl fun _ range => positive range.1

private theorem reported_of_escapes {opened : Except Fault (List UInt8)} {nesting : Nat} {fault : Fault}
    (escapes : Library.Escapes nesting opened fault) (shallow : fault ≠ .nestedTooDeep) :
    isReported fault = true := by
  cases escapes with
  | nestedTooDeep => exact absurd rfl shallow
  | _ => rfl

/-- The source of the text when nothing has to be asked. -/
inductive Sourced (arguments : Arguments) (host : Host) : Except Fault (List CodePoint) → Prop
  | settled {source : Except Fault (List CodePoint)} (shallow : ¬ MeetsNesting arguments host)
      (settles : Settles (Provides arguments host) source) : Sourced arguments host source
  | nested (meets : MeetsNesting arguments host) : Sourced arguments host (.error .nestedTooDeep)

private theorem sourced_file (opens : Opens host.opening) {path : String}
    (named : arguments.grammarFile = some path) (nonempty : path ≠ "") :
    ∃ source, origin arguments host = .given source ∧ Sourced arguments host source := by
  have filed : ¬ arguments.Fileless := by simp [Arguments.Fileless, named, nonempty]
  refine ⟨openText host.opening path, ?_, .settled (fun meets => filed meets.1) ?_⟩
  · unfold origin
    split
    · next unnamed => simp [named] at unnamed
    · next empty => simp [named, nonempty] at empty
    · next other _ same =>
      obtain rfl : path = other := Option.some.inj (named.symm.trans same)
      rfl
  · refine (((settles_opening opens path).bind settles_fileText).map _).congr fun points => ?_
    constructor
    · rintro ⟨text, ⟨bytes, opened, written, encoded, rfl⟩, rfl⟩
      exact .file named nonempty opened encoded
    · rintro (⟨same, _, opened, encoded⟩ | ⟨fileless, _, _, _, _⟩)
      · obtain rfl := Option.some.inj (named.symm.trans same)
        exact ⟨_, ⟨_, opened, _, encoded, rfl⟩, rfl⟩
      · exact absurd fileless filed

private theorem origin_of_unloaded (fileless : arguments.Fileless) {fault : Fault}
    (failed : givenLibrary host arguments.library = .error fault) :
    origin arguments host = .given (.error fault) := by
  rcases fileless with unnamed | empty
  · simp only [origin, unnamed, failed]
  · simp only [origin, empty, failed]

private theorem origin_of_loaded (fileless : arguments.Fileless) {library : Library}
    (loaded : givenLibrary host arguments.library = .ok library) :
    origin arguments host = originInLibrary arguments library := by
  rcases fileless with unnamed | empty
  · simp only [origin, unnamed, loaded]
  · simp only [origin, empty, loaded]

private theorem provides_fileless_iff (fileless : arguments.Fileless) {points : List CodePoint} :
    Provides arguments host points ↔ ∃ library number entry,
      givenLibrary host arguments.library = .ok library ∧
      arguments.exampleNumber = some (.value number) ∧
      (1 ≤ number ∧ library.examples[(number - 1).toNat]? = some entry) ∧
      entry.text = points := by
  constructor
  · rintro (⟨named, nonempty, _, _⟩ | ⟨_, loaded, numbered, positive, found⟩)
    · simp [Arguments.Fileless, named, nonempty] at fileless
    · exact ⟨_, _, _, loaded, numbered, ⟨positive, found⟩, rfl⟩
  · rintro ⟨library, number, entry, loaded, numbered, ⟨positive, found⟩, rfl⟩
    exact .listed fileless loaded numbered positive found

/-- A library that was given but not loaded is reported, unless it nests too deep. -/
theorem reported_of_unloaded (opens : Opens host.opening) {given : Option (Given String)}
    (kept : given ≠ some .emptied) {fault : Fault} (failed : givenLibrary host given = .error fault)
    (shallow : fault ≠ .nestedTooDeep) : isReported fault = true := by
  cases given with
  | none => cases failed
  | some given =>
    cases given with
    | emptied => exact absurd rfl kept
    | value path => exact reported_of_escapes (escapes_of_loadLibrary opens failed) shallow

private theorem sourced_unloaded (opens : Opens host.opening) (fileless : arguments.Fileless)
    (kept : arguments.library ≠ some .emptied) {fault : Fault}
    (failed : givenLibrary host arguments.library = .error fault) :
    Sourced arguments host (.error fault) := by
  by_cases nested : fault = .nestedTooDeep
  · obtain rfl := nested
    exact .nested ⟨fileless, failed⟩
  · refine .settled (fun meets => nested (Except.error.inj (failed.symm.trans meets.2)))
      (.refused (reported_of_unloaded opens kept failed nested) fun points => ?_)
    simp [provides_fileless_iff fileless, failed]

private theorem sourced_fileless (opens : Opens host.opening) (fileless : arguments.Fileless)
    (kept : arguments.library ≠ some .emptied) {number : Int}
    (numbered : arguments.exampleNumber = some (.value number)) :
    ∃ source, origin arguments host = .given source ∧ Sourced arguments host source := by
  cases loaded : givenLibrary host arguments.library with
  | error fault =>
    exact ⟨_, origin_of_unloaded fileless loaded, sourced_unloaded opens fileless kept loaded⟩
  | ok library =>
    rw [origin_of_loaded fileless loaded]
    simp only [originInLibrary, numbered]
    refine ⟨_, rfl, .settled (by simp [MeetsNesting, loaded]) ?_⟩
    refine ((settles_exampleNumbered library number).map _).congr fun points => ?_
    simp [provides_fileless_iff fileless, loaded, numbered]

private theorem exists_sourced (opens : Opens host.opening) (kept : arguments.library ≠ some .emptied)
    (alone : arguments.NonInteractive) :
    ∃ source, origin arguments host = .given source ∧ Sourced arguments host source := by
  by_cases filed : ∃ path, arguments.grammarFile = some path ∧ path ≠ ""
  · obtain ⟨path, named, nonempty⟩ := filed
    exact sourced_file opens named nonempty
  · obtain ⟨number, numbered⟩ := alone.resolve_left filed
    refine sourced_fileless opens ?_ kept numbered
    cases named : arguments.grammarFile with
    | none => exact Or.inl named
    | some path =>
      have empty : path = "" := by
        by_contra nonempty
        exact filed ⟨path, named, nonempty⟩
      exact Or.inr (by rw [named, empty])

/-! ### The target -/

private theorem settles_natural (digits : List Nat) :
    Settles (natural digits = .ok ·) (natural digits) := by
  refine .of_reported fun fault failed => ?_
  unfold natural at failed
  split at failed
  · cases failed
  · exact Except.error.inj failed ▸ rfl

private theorem settles_integer (text : String) : Settles (integer text = .ok ·) (integer text) := by
  have refused {whole : Prop} [Decidable whole] {number : Int} {fault : Fault}
      (failed : (if whole then .ok number else .error (.notNumeral text)) = Except.error fault) :
      isReported fault = true := by
    split at failed
    · cases failed
    · exact Except.error.inj failed ▸ rfl
  refine .of_reported fun fault failed => ?_
  unfold integer at failed
  dsimp only at failed
  split at failed
  · exact Except.error.inj failed ▸ rfl
  · next digits _ =>
    cases value : natural digits with
    | error other =>
      rw [value] at failed
      exact Except.error.inj failed ▸ (settles_natural digits).reported other value
    | ok number =>
      rw [value] at failed
      exact refused failed

private theorem settles_dotTarget (argument : String) :
    Settles (fun target => Targets (some argument) (some target)) (dotTarget argument) := by
  unfold dotTarget
  -- One piece is a rule, two pieces are a rule and a round, and more of them are no target.
  split
  · next rule whole =>
    obtain ⟨piece, single, rfl⟩ := List.map_eq_singleton_iff.mp whole
    obtain ⟨free, rfl⟩ := pieces_eq_singleton_iff.mp single
    rw [String.ofList_toList]
    refine ((settles_integer argument).map fun rule => (rule, none)).congr fun target => ?_
    constructor
    · rintro ⟨rule, read, rfl⟩
      exact .rule free read
    · intro targets
      cases targets with
      | rule _ read => exact ⟨_, read, rfl⟩
      | round split => simp [split] at free
  · next rule round both =>
    obtain ⟨left, others, pair, rfl, single⟩ := List.map_eq_cons_iff.mp both
    obtain ⟨right, rfl, rfl⟩ := List.map_eq_singleton_iff.mp single
    obtain ⟨split, first, last⟩ := pieces_eq_pair_iff.mp pair
    refine ((settles_integer _).bind fun rule => (settles_integer _).map fun round =>
      (rule, some round)).congr fun target => ?_
    constructor
    · rintro ⟨rule, readRule, round, readRound, rfl⟩
      exact .round split first last readRule readRound
    · intro targets
      cases targets with
      | rule free => simp [split] at free
      | round split' first' last' readRule readRound =>
        obtain ⟨rfl, rfl⟩ : left = _ ∧ right = _ := by
          simpa using pair.symm.trans (pieces_eq_pair_iff.mpr ⟨split', first', last'⟩)
        exact ⟨_, readRule, _, readRound, rfl⟩
  · next single both =>
    refine .refused rfl fun target targets => ?_
    cases targets with
    | rule free => exact single _ (by rw [pieces_of_not_mem free, List.map_singleton])
    | round split first last =>
      exact both _ _ (by rw [pieces_eq_pair_iff.mpr ⟨split, first, last⟩]; rfl)

private theorem settles_dotTarget? (dot : Option String) : Settles (Targets dot) (dotTarget? dot) := by
  unfold dotTarget?
  split
  · refine .found fun target => ⟨fun same => same ▸ .absent, fun targets => ?_⟩
    cases targets
    rfl
  · refine .found fun target => ⟨fun same => same ▸ .empty, fun targets => ?_⟩
    cases targets with
    | empty => rfl
    | rule _ read => cases read
    | round split => simp at split
  · next argument nonempty =>
    refine ((settles_dotTarget argument).map some).congr fun target => ?_
    constructor
    · rintro ⟨_, targets, rfl⟩
      exact targets
    · intro targets
      cases target with
      | none =>
        cases targets
        exact absurd rfl nonempty
      | some target => exact ⟨target, targets, rfl⟩

/-! ### The ending -/

variable {reading : Study.Reading} {text : List Char} {study : Study}

private theorem showStudy_done (ready : study.grammar.Ready) (aligned : Report.Aligned study) :
    (showStudy study).2 = .exited exitDone := by
  obtain ⟨shown, grammar⟩ := Report.exists_grammarShown ready
  obtain ⟨rounds, all⟩ : ∃ rounds, Report.allRoundsShown study = (rounds, none) :=
    ⟨_, Prod.ext rfl (Report.allRoundsShown_done ready aligned)⟩
  simp only [showStudy, grammar, all]

private theorem showResult_ending (ready : study.grammar.Ready) (aligned : Report.Aligned study)
    (arguments : Arguments) (target : Option (Int × Option Int)) :
    (showResult arguments target study).2 = .exited (exitCode arguments target study) := by
  have errors : study.grammar.hasErrors = true ↔ study.grammar.errors ≠ [] := by
    simp [Grammar.hasErrors]
  unfold showResult exitCode
  by_cases wrong : study.grammar.errors ≠ []
  · rw [if_pos (errors.mpr wrong), if_pos wrong]
  · rw [if_neg (fun recorded => wrong (errors.mp recorded)), if_neg wrong]
    cases json : arguments.json with
    | true =>
      obtain ⟨text, exported⟩ := Report.exists_exported ready aligned (some 2)
      simp [exported, withFault, Except.map]
    | false =>
      cases target with
      | none => simpa using showStudy_done ready aligned
      | some wanted =>
        obtain ⟨rule, round?⟩ := wanted
        have there := Study.exists_dependencyGraph_iff ready aligned rule round?
        cases made : study.dependencyGraph rule round? <;> simp_all [reported]

private theorem conclude_badInput {source : Except Fault (List CodePoint)}
    (given : origin arguments host = .given source)
    (settles : Settles (Provides arguments host) source) (bad : BadInput arguments host) :
    ∃ fault, Blames arguments host fault ∧ conclude reading arguments source = reported fault := by
  have targets := settles_dotTarget? arguments.dot
  cases source with
  | error fault =>
    refine ⟨fault, .text given, ?_⟩
    simp [conclude, bind, Except.bind, settles.reported fault rfl]
  | ok points =>
    have provides := (settles.ok_iff points).mp rfl
    cases wanted : dotTarget? arguments.dot with
    | error fault =>
      refine ⟨fault, .target provides wanted, ?_⟩
      simp [conclude, bind, Except.bind, wanted, targets.reported fault wanted]
    | ok target =>
      rcases bad with unprovided | untargeted
      · exact absurd provides (unprovided points)
      · exact absurd ((targets.ok_iff target).mp wanted) (untargeted target)

private theorem ofPoints_characters (reading : Study.Reading) (text : List Char) :
    Study.ofPoints reading (text.map .character) = Study.ofCharacters reading text := by
  rw [Study.ofPoints, characters?_eq_some_iff.mpr rfl]

private theorem conclude_of_fault {target : Option (Int × Option Int)}
    (targets : Targets arguments.dot target)
    {fault : Fault} (failed : Study.ofCharacters reading text = .error fault) :
    conclude reading arguments (.ok (text.map .character)) = ([], .failed fault) := by
  have wanted := ((settles_dotTarget? arguments.dot).ok_iff target).mpr targets
  simp only [conclude, bind, Except.bind, wanted, pure, Except.pure, ofPoints_characters, failed]

private theorem conclude_of_read {target : Option (Int × Option Int)}
    (targets : Targets arguments.dot target) (read : Study.ofCharacters reading text = .ok study) :
    conclude reading arguments (.ok (text.map .character)) =
      ((showResult arguments target study).1, .exited (exitCode arguments target study)) := by
  have wanted := ((settles_dotTarget? arguments.dot).ok_iff target).mpr targets
  obtain ⟨ready, rounds, shows, _⟩ := Study.shows_of_ok read
  simp only [conclude, bind, Except.bind, wanted, pure, Except.pure, ofPoints_characters, read]
  exact Prod.ext rfl (showResult_ending ready (Study.aligned_of_shows shows) arguments target)

def readingFor (arguments : Arguments) (reading : Study.Reading) : Study.Reading :=
  { reading with configuration := configure arguments reading.configuration }

private theorem readingFor_of_silent (silent : arguments.logLevel = none) (reading : Study.Reading) :
    readingFor arguments reading = reading := by
  rw [readingFor, configure, silent]

private theorem run_ending {argv : List String}
    (accepted : Arguments.ofList host.convention argv = .ok arguments)
    {source : Except Fault (List CodePoint)} (given : origin arguments host = .given source)
    (reading : Study.Reading) (lines : List String) {shown : List Shown} {ending : Ending}
    (concluded : conclude (readingFor arguments reading) arguments source = (shown, ending)) :
    (run host reading lines argv).ending = endingOn host shown ending := by
  rw [readingFor] at concluded
  simp only [run, accepted, given, Origin.resolve, concluded, List.nil_append]

def oneRule : List Char := "S -> a".toList

def graphOf (target : String) : Arguments :=
  { grammarFile := some "grammar.txt", dot := some target }

/-- Whether each closing tag has an opening one before it; a tag begins with a small letter. -/
def closesOpened : (opened : Nat) → List Char → Bool
  | opened, '[' :: '/' :: rest => 0 < opened && closesOpened (opened - 1) rest
  | opened, '[' :: c :: rest => closesOpened (if c.isLower then opened + 1 else opened) (c :: rest)
  | opened, _ :: rest => closesOpened opened rest
  | _, [] => true

def showsCaption (caption : Caption) : Bool :=
  !caption.isStyled || closesOpened 0 (caption.points.map CodePoint.shown)

def showsTags : Shown → Bool
  | .line caption | .panel _ caption => showsCaption caption
  | .table _ _ rows => rows.all fun row => row.all showsCaption
  | .json _ | .prompt _ => true

/-- Every path leads to a file with one rule in it. -/
def oneRuleHost : Host :=
  { convention := .newer, shows := showsTags, nesting := 900, opening := everywhere (encode oneRule) }

private theorem provides_oneRule (target : String) :
    Provides (graphOf target) oneRuleHost (oneRule.map .character) :=
  .file rfl (show "grammar.txt" ≠ "" by decide) rfl
    (withoutMark_encode (show oneRule.head? ≠ some '\ufeff' by decide))

/-- The tag in the message closes the one before it, and then the last one closes nothing. -/
example : (run oneRuleHost { roundLimit := 2 } [] ["grammar.txt", "--dot=[/]"]).ending =
    .failed .notShown := by rfl

end AttributeGrammar.CommandLine
