import AttributeGrammar.Study
import AttributeGrammar.Proofs.Analysis.Run

/-! From a text to the analysis of its grammar.
The grammar that a text is read to is ready for its analysis, and reading with analysis is reading
without it, followed by a run.
-/
namespace AttributeGrammar

namespace Study

/-- The text is read to the grammar, and the choices ask for its analysis. -/
structure Analyzes (reading : Reading) (text : List Char) (grammar : Grammar) : Prop where
  filled : Text.isEmpty text = false
  read : ofCharacters { reading with analyze := false } text = .ok { grammar := grammar }
  asked : reading.analyzes grammar = true

theorem ofCharacters_filled {reading : Reading} {text : List Char}
    (filled : Text.isEmpty text = false) {draft grammar : Grammar}
    (drafted : Grammar.ofRows reading.configuration (Text.rows text) = .ok draft)
    (reconciled : draft.reconcile = .done grammar) :
    ofCharacters reading text = if reading.analyzes grammar then
      ofOutcome (analyze reading.roundLimit { grammar := grammar }) else
        .ok { grammar := grammar } := by
  have done : ofOutcome (Study.mk draft {}).reconcile = .ok { grammar := grammar } := by
    simp only [reconcile, reconciled, ofOutcome]
  simp only [ofCharacters, filled, Bool.false_eq_true, if_false, drafted, bind, Except.bind, done]
  rfl

theorem exists_draft {reading : Reading} {text : List Char} (filled : Text.isEmpty text = false)
    {study : Study} (read : ofCharacters { reading with analyze := false } text = .ok study) :
    ∃ draft grammar, Grammar.ofRows reading.configuration (Text.rows text) = .ok draft ∧
      draft.reconcile = .done grammar ∧ grammar.Ready ∧ grammar.errors = draft.errors ∧
      study = { grammar := grammar } := by
  cases drafted : Grammar.ofRows reading.configuration (Text.rows text) with
  | error fault =>
    simp [ofCharacters, filled, drafted, bind, Except.bind] at read
  | ok draft =>
    obtain ⟨grammar, reconciled, ready, errors, _⟩ :=
      Grammar.ready_reconcile (Grammar.drafted_ofRows drafted)
    have plain : ofCharacters { reading with analyze := false } text =
        .ok { grammar := grammar } := ofCharacters_filled filled drafted reconciled
    rw [plain] at read
    exact ⟨draft, grammar, rfl, reconciled, ready, errors, (Except.ok.inj read).symm⟩

variable {reading : Reading} {text : List Char} {grammar : Grammar}

theorem Analyzes.ready (runs : Analyzes reading text grammar) : grammar.Ready := by
  obtain ⟨_, found, _, _, ready, _, same⟩ := exists_draft runs.filled runs.read
  obtain rfl : grammar = found := congrArg Study.grammar same
  exact ready

theorem Analyzes.outcome (runs : Analyzes reading text grammar) :
    ofCharacters reading text = ofOutcome (analyze reading.roundLimit { grammar := grammar }) := by
  obtain ⟨draft, found, drafted, reconciled, _, _, same⟩ := exists_draft runs.filled runs.read
  obtain rfl : grammar = found := congrArg Study.grammar same
  rw [ofCharacters_filled runs.filled drafted reconciled, if_pos runs.asked]

theorem analyze_eq (limit : Nat) (grammar : Grammar) :
    ofOutcome (analyze limit { grammar := grammar }) =
      match Analysis.run limit grammar {} with
      | .done analysis => .ok ⟨grammar, analysis⟩
      | .stopped fault _ => .error fault := by
  simp only [analyze]
  cases Analysis.run limit grammar {} <;> rfl

/-- The analysis of a text ends within the limit with its first stable round, or exhausts it. -/
theorem Analyzes.cases (runs : Analyzes reading text grammar) :
    (∃ last analysis, last < reading.roundLimit ∧ grammar.stableRound last = true ∧
      (∀ other < last, grammar.stableRound other = false) ∧
      ofCharacters reading text = .ok ⟨grammar, analysis⟩ ∧
      grammar.ShowsRounds (last + 1) analysis) ∨
    (∀ other < reading.roundLimit, grammar.stableRound other = false) ∧
      ofCharacters reading text = .error .roundsExhausted := by
  rw [runs.outcome, analyze_eq]
  rcases Analysis.run_cases runs.ready reading.roundLimit with
    ⟨last, final, less, stable, first, went, shows⟩ | ⟨final, unstable, went, _⟩
  · exact Or.inl ⟨last, final, less, stable, first, by rw [went], shows⟩
  · exact Or.inr ⟨unstable, by rw [went]⟩

theorem Analyzes.ended (runs : Analyzes reading text grammar) {study : Study}
    (ended : ofCharacters reading text = .ok study) :
    study.grammar = grammar ∧ ∃ last < reading.roundLimit, grammar.stableRound last = true ∧
      (∀ other < last, grammar.stableRound other = false) ∧
      grammar.ShowsRounds (last + 1) study.analysis := by
  rcases runs.cases with ⟨last, analysis, less, stable, first, went, shows⟩ | ⟨_, went⟩
  · obtain rfl : study = ⟨grammar, analysis⟩ := by
      rw [went] at ended
      exact (Except.ok.inj ended).symm
    exact ⟨rfl, last, less, stable, first, shows⟩
  · rw [went] at ended
    cases ended

end Study
end AttributeGrammar
