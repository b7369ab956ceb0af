import AttributeGrammar.Proofs.Grammar.Reading
import AttributeGrammar.Proofs.Study
import Mathlib

/-! Which texts are read, and which of them without errors.
Nothing but a reference with too many digits can stop the reading of a text, and nothing at all its
analysis. The errors of a text are those of its rows, each with the number of its row.
-/
namespace AttributeGrammar
open Text

namespace Study
variable {reading : Reading} {text : List Char} {grammar : Grammar}

/-- Reading the text comes to a reference with too many digits. -/
def ReachesLongReference (configuration : Configuration) (text : List Char) : Prop :=
  ∃ row ∈ rows text, RowStumbles configuration row

theorem filled_of_arrow {row left right : List Char} (member : row ∈ rows text)
    (arrow : OneArrow (rulePart row) left right) : isEmpty text = false := by
  rcases mem_of_mem_rows member arrow.filled.1 with inside | gap
  · exact isEmpty_eq_false_iff.mpr ⟨'-', inside, by decide⟩
  · cases gap

theorem filled_of_keeps {row left right : List Char} (member : row ∈ rows text)
    (keeps : KeepsRule row left right) : isEmpty text = false :=
  filled_of_arrow member keeps.arrow

private theorem filled_of_reaches {configuration : Configuration}
    (reaches : ReachesLongReference configuration text) : isEmpty text = false := by
  obtain ⟨row, member, left, right, keeps, _⟩ := reaches
  exact filled_of_keeps member keeps

/-- The text is put together row by row to the draft, and that is reconciled to the grammar. -/
structure Drafts (reading : Reading) (text : List Char) (draft grammar : Grammar) : Prop where
  fromRows : Grammar.FromRows reading.configuration (rows text) draft
  drafted : draft.Drafted
  reconciled : draft.reconcile = .done grammar

theorem draft_cases (reading : Reading) (filled : isEmpty text = false) :
    (∃ draft grammar, Drafts reading text draft grammar ∧
      ofCharacters { reading with analyze := false } text = .ok { grammar := grammar } ∧
      ofCharacters reading text = (if reading.analyzes grammar then
        ofOutcome (analyze reading.roundLimit { grammar := grammar }) else
          .ok { grammar := grammar })) ∨
    (∃ digits, ofCharacters reading text = .error (.numeralTooLong digits)) ∧
      ReachesLongReference reading.configuration text := by
  rcases Grammar.ofRows_cases reading.configuration (rows text) with
    ⟨draft, went, fromRows⟩ | ⟨⟨digits, fault⟩, reaches⟩
  · have drafted := Grammar.drafted_ofRows went
    obtain ⟨grammar, reconciled, _⟩ := Grammar.ready_reconcile drafted
    exact Or.inl ⟨draft, grammar, ⟨fromRows, drafted, reconciled⟩,
      ofCharacters_filled filled went reconciled, ofCharacters_filled filled went reconciled⟩
  · refine Or.inr ⟨⟨digits, ?_⟩, reaches⟩
    simp [ofCharacters, filled, fault, bind, Except.bind]

theorem Drafts.calm {draft : Grammar} (drafts : Drafts reading text draft grammar) :
    ¬ ReachesLongReference reading.configuration text :=
  fun ⟨row, member, stumbles⟩ => drafts.fromRows.calm row member stumbles

theorem Drafts.of_reconcile {draft : Grammar} (drafts : Drafts reading text draft grammar) :
    grammar.Ready ∧ grammar.errors = draft.errors ∧ grammar.attributeNames = draft.attributeNames ∧
      List.Forall₂ Rule.ResolvesTo draft.collect.complete.rules grammar.rules := by
  obtain ⟨same, reconciled, facts⟩ := Grammar.ready_reconcile drafts.drafted
  obtain rfl : grammar = same := by simpa [drafts.reconciled] using reconciled
  exact facts

theorem ofCharacters_blank (reading : Reading) (blank : isEmpty text = true) :
    ofCharacters reading text = .ok { grammar := { errors := [.emptyText] } } := by
  rw [ofCharacters, if_pos blank]

private theorem ready_blank : Grammar.Ready { errors := [.emptyText] } := by
  constructor
  · constructor <;> simp [Grammar.numbersOf]
  · simp

/-- The text has this grammar, whether it is analysed or not. -/
structure Parses (reading : Reading) (text : List Char) (grammar : Grammar) : Prop where
  read : ofCharacters { reading with analyze := false } text = .ok { grammar := grammar }
  ready : grammar.Ready
  whole : ofCharacters reading text = .ok { grammar := grammar } ∨ Analyzes reading text grammar
  origin : (isEmpty text = true ∧ grammar = { errors := [.emptyText] }) ∨
    isEmpty text = false ∧ ∃ draft, Drafts reading text draft grammar

theorem exists_grammar (calm : ¬ ReachesLongReference reading.configuration text) :
    ∃ grammar, Parses reading text grammar := by
  by_cases blank : isEmpty text = true
  · exact ⟨_, ofCharacters_blank _ blank, ready_blank, Or.inl (ofCharacters_blank _ blank),
      Or.inl ⟨blank, rfl⟩⟩
  · have filled := Bool.eq_false_iff.mpr blank
    rcases draft_cases reading filled with ⟨draft, grammar, drafts, read, all⟩ | ⟨_, reaches⟩
    · refine ⟨grammar, read, drafts.of_reconcile.1, ?_, Or.inr ⟨filled, draft, drafts⟩⟩
      by_cases asked : reading.analyzes grammar = true
      · exact Or.inr ⟨filled, read, asked⟩
      · rw [if_neg asked] at all
        exact Or.inl all
    · exact absurd reaches calm

theorem Parses.unique (parses : Parses reading text grammar) {study : Study}
    (ended : ofCharacters reading text = .ok study) : study.grammar = grammar := by
  rcases parses.whole with plain | runs
  · rw [plain] at ended
    rw [← Except.ok.inj ended]
  · exact (runs.ended ended).1

theorem Parses.read_or_exhausted (parses : Parses reading text grammar) :
    (∃ study, ofCharacters reading text = .ok study) ∨
      ofCharacters reading text = .error .roundsExhausted := by
  rcases parses.whole with plain | runs
  · exact Or.inl ⟨_, plain⟩
  · rcases runs.cases with ⟨_, _, _, _, _, ended, _⟩ | ⟨_, exhausted⟩
    · exact Or.inl ⟨_, ended⟩
    · exact Or.inr exhausted

theorem fault_of_reaches (reaches : ReachesLongReference reading.configuration text) :
    ∃ digits, ofCharacters reading text = .error (.numeralTooLong digits) := by
  rcases draft_cases reading (filled_of_reaches reaches) with ⟨_, _, drafts, _⟩ | ⟨fault, _⟩
  · exact absurd reaches drafts.calm
  · exact fault

theorem not_reaches_of_ok {study : Study} (read : ofCharacters reading text = .ok study) :
    ¬ ReachesLongReference reading.configuration text := by
  intro reaches
  obtain ⟨_, fault⟩ := fault_of_reaches reaches
  rw [fault] at read
  cases read

theorem parses_of_read
    (read : ofCharacters { reading with analyze := false } text = .ok { grammar := grammar }) :
    Parses reading text grammar := by
  have calm := not_reaches_of_ok read
  obtain ⟨same, parses⟩ : ∃ same, Parses reading text same := exists_grammar calm
  obtain rfl : grammar = same := by simpa [parses.read] using read.symm
  exact parses

theorem ready_of_read (read : ofCharacters reading text = .ok { grammar := grammar }) :
    grammar.Ready := by
  obtain ⟨same, parses⟩ := exists_grammar (not_reaches_of_ok read)
  obtain rfl : grammar = same := parses.unique read
  exact parses.ready

/-- The reading of a text meets a fault just when it comes to a reference with too many digits.
Otherwise every equation that is read is about symbols of its rule, any number of rounds can be played,
and the analysis ends unless none of the rounds that it may play is stable. -/
theorem reads_unless_longReference (reading : Reading) (text : List Char) :
    (ReachesLongReference reading.configuration text ∧
      ∃ digits, ofCharacters reading text = .error (.numeralTooLong digits)) ∨
    (¬ ReachesLongReference reading.configuration text ∧ ∃ grammar,
      ofCharacters { reading with analyze := false } text = .ok { grammar := grammar } ∧
      (∀ symbolCount whole equation,
        Equation.read reading.configuration symbolCount whole = .ok equation →
          equation.Fits symbolCount) ∧
      (∀ rounds, ∃ analysis, Outcome.through (Analysis.playRound grammar) (List.range rounds) {} =
        .done analysis) ∧
      ((∃ analysis, ofCharacters reading text = .ok ⟨grammar, analysis⟩) ∨
        ofCharacters reading text = .error .roundsExhausted ∧ Analyzes reading text grammar ∧
          ∀ round < reading.roundLimit, grammar.stableRound round = false)) := by
  by_cases reaches : ReachesLongReference reading.configuration text
  · exact Or.inl ⟨reaches, fault_of_reaches reaches⟩
  · obtain ⟨grammar, parses⟩ := exists_grammar reaches
    refine Or.inr ⟨reaches, grammar, parses.read, fun _ _ _ => Equation.fits_read,
      fun rounds => ?_, ?_⟩
    · obtain ⟨analysis, went, _⟩ := Analysis.exists_rounds parses.ready rounds
      exact ⟨analysis, went⟩
    · rcases parses.whole with plain | runs
      · exact Or.inl ⟨{}, plain⟩
      · rcases runs.cases with ⟨_, analysis, _, _, _, ended, _⟩ | ⟨unstable, exhausted⟩
        · exact Or.inl ⟨analysis, ended⟩
        · exact Or.inr ⟨exhausted, runs, unstable⟩

theorem Drafts.errors_eq_nil_iff {draft : Grammar} (drafts : Drafts reading text draft grammar) :
    grammar.errors = [] ↔
      ∀ row ∈ rows text, isEmpty row = false → Accepted reading.configuration row := by
  rw [drafts.of_reconcile.2.1, List.eq_nil_iff_forall_not_mem]
  constructor
  · intro clean row member filled
    by_contra wrong
    obtain ⟨line, found⟩ := List.mem_iff_getElem?.mp member
    obtain ⟨error, present, _⟩ := (drafts.fromRows.mem_errors_line found).mpr ⟨filled, wrong⟩
    exact clean error present
  · intro all error present
    obtain ⟨line, row, found, problem, _, rfl⟩ := drafts.fromRows.mem_errors_iff.mp present
    obtain ⟨filled, wrong⟩ := (drafts.fromRows.mem_errors_line found).mp ⟨_, present, rfl⟩
    exact wrong (all row (List.mem_of_getElem? found) filled)

/-- The number of a line stands in the wording of its errors. -/
theorem text_inLine (line : Nat) (problem : Problem) :
    (GrammarError.inLine line problem).text =
      "第 " ++ toString (line + 1) ++ " 行: " ++ problem.text :=
  rfl

/-- A text has no errors just when it is not blank and all its rows are blank or in the documented
format. Each row that is not has an error with its number, no other row has one, and the errors are in
the order of the rows. -/
theorem errors_eq_nil_iff_accepted (calm : ¬ ReachesLongReference reading.configuration text) :
    ∃ grammar, ofCharacters { reading with analyze := false } text = .ok { grammar := grammar } ∧
      (∀ study, ofCharacters reading text = .ok study → study.grammar = grammar) ∧
      (grammar.errors = [] ↔ isEmpty text = false ∧
        ∀ row ∈ rows text, isEmpty row = false → Accepted reading.configuration row) ∧
      (isEmpty text = false →
        (∀ (line : Nat) (row : List Char), (rows text)[line]? = some row →
          ((∃ error ∈ grammar.errors, error.number = line + 1) ↔
            isEmpty row = false ∧ ¬ Accepted reading.configuration row)) ∧
        (∀ error ∈ grammar.errors, ∃ line < (rows text).length, ∃ problem,
          error = .inLine ((line : Nat) : Int) problem ∧
            error.text = "第 " ++ toString (line + 1) ++ " 行: " ++ problem.text) ∧
        grammar.errors.Pairwise fun earlier later => earlier.number ≤ later.number) := by
  obtain ⟨grammar, parses⟩ := exists_grammar calm
  refine ⟨grammar, parses.read, fun study => parses.unique, ?_⟩
  rcases parses.origin with ⟨blank, rfl⟩ | ⟨filled, draft, drafts⟩
  · simp [blank]
  · refine ⟨by rw [drafts.errors_eq_nil_iff]; simp [filled], fun _ => ?_⟩
    rw [drafts.of_reconcile.2.1]
    refine ⟨fun line row => drafts.fromRows.mem_errors_line, fun error member => ?_,
      drafts.fromRows.errors_ordered⟩
    obtain ⟨line, row, found, problem, _, rfl⟩ := drafts.fromRows.mem_errors_iff.mp member
    exact ⟨line, (List.getElem?_eq_some_iff.mp found).1, problem, rfl, text_inLine line problem⟩

/-- The second row is blank, and the equation of the third has no target. -/
def targetMissing : List Char := "S -> A

A -> a : = v[1]".toList

theorem errors_targetMissing : ∃ study,
    ofCharacters { roundLimit := 2 } targetMissing = .ok study ∧
      study.grammar.errors.map GrammarError.number = [3] ∧
      ¬ Accepted {} "A -> a : = v[1]".toList := by
  have read : ∃ study, ofCharacters { roundLimit := 2 } targetMissing = .ok study ∧
      study.grammar.errors.map GrammarError.number = [3] :=
    ⟨_, by cbv, by cbv⟩
  have third : (rows targetMissing)[2]? = some "A -> a : = v[1]".toList := by cbv
  have filled : isEmpty targetMissing = false := by cbv
  obtain ⟨study, read, numbers⟩ := read
  obtain ⟨grammar, _, same, _, lines⟩ := errors_eq_nil_iff_accepted (not_reaches_of_ok read)
  refine ⟨study, read, numbers, (((lines filled).1 2 _ third).mp ?_).2⟩
  rw [← same study read]
  obtain ⟨error, member, number⟩ : ∃ error ∈ study.grammar.errors, error.number = 3 := by
    rw [← List.mem_map, numbers]
    exact List.mem_cons_self
  exact ⟨error, member, number⟩

end Study
end AttributeGrammar
