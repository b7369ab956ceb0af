import AttributeGrammar.Proofs.Parsing
import AttributeGrammar.Proofs.Report
import Mathlib

/-! The histories of a study that was read.
Whether it was analysed or not, every rule and every nonterminal has one snapshot for each round, and
the marks of the rounds and of the snapshots tell which relations stayed as they were.
-/
namespace AttributeGrammar

namespace Grammar
variable {grammar : Grammar}

theorem nodup_ruleSnapshot (round number : Nat) :
    (grammar.ruleSnapshot round number).projections.keys.Nodup ∧
      (grammar.ruleSnapshot round number).redecorated.keys.Nodup := by
  rw [ruleSnapshot]
  cases grammar.rules[number]? with
  | none => exact ⟨List.nodup_nil, List.nodup_nil⟩
  | some rule => exact ⟨Relations.nodup_keys_ofList _, Relations.nodup_keys_ofList _⟩

/-- The first round is not stable. -/
theorem stableRound_zero (filled : grammar.nonterminals.keys ≠ []) :
    grammar.stableRound 0 = false := by
  obtain ⟨name, known⟩ := List.exists_mem_of_ne_nil _ filled
  rw [stableRound, List.all_eq_false]
  exact ⟨name, known, by simp [snapshot]⟩

/-- A snapshot is stable when the one before it has the same relations. -/
theorem stable_snapshot_iff {rounds round : Nat} {name : String} (below : round < rounds) :
    (grammar.snapshot round name).stable = true ↔ 1 ≤ round ∧
      ∃ previous, (grammar.snapshots rounds name)[round - 1]? = some previous ∧
        ∀ edge, edge ∈ (grammar.snapshot round name).relations.keys ↔
          edge ∈ previous.relations.keys := by
  simp only [snapshots, Sequence.getElem?_map_range_iff]
  cases round with
  | zero => simp [snapshot]
  | succ round =>
    have before : round < rounds := by omega
    simp [snapshot, before, OrderedMap.sameKeys_iff]

private theorem map_stableRound {last : Nat} (stable : grammar.stableRound last = true)
    (first : ∀ other < last, grammar.stableRound other = false) :
    (List.range (last + 1)).map grammar.stableRound = List.replicate last false ++ [true] := by
  rw [List.range_succ, List.map_append, List.map_singleton, stable, List.append_cancel_right_eq,
    List.eq_replicate_iff]
  refine ⟨by simp, fun mark member => ?_⟩
  obtain ⟨other, before, rfl⟩ := List.mem_map.mp member
  exact first other (List.mem_range.mp before)

end Grammar

namespace Study
variable {reading : Reading} {text : List Char} {study : Study}

/-- A study that was read shows some rounds: none, or those up to the first stable one. -/
theorem shows_of_ok (ended : ofCharacters reading text = .ok study) : study.grammar.Ready ∧
    ∃ rounds, study.grammar.ShowsRounds rounds study.analysis ∧
      (reading.analyzes study.grammar = true → study.grammar.nonterminals.keys ≠ [] →
        ∃ last, rounds = last + 1 ∧ study.grammar.stableRound last = true ∧
          ∀ other < last, study.grammar.stableRound other = false) := by
  obtain ⟨grammar, parses⟩ := exists_grammar (not_reaches_of_ok ended)
  obtain rfl : study.grammar = grammar := parses.unique ended
  refine ⟨parses.ready, ?_⟩
  have plain (same : ofCharacters reading text = .ok { grammar := study.grammar }) :
      study.grammar.ShowsRounds 0 study.analysis := by
    rw [ended, Except.ok.injEq] at same
    rw [same]
    exact study.grammar.showsRounds_start
  rcases parses.origin with ⟨blank, empty⟩ | ⟨filled, _⟩
  · refine ⟨0, plain (by rw [ofCharacters_blank reading blank, empty]), fun _ filled => ?_⟩
    rw [empty] at filled
    exact absurd rfl filled
  · by_cases asked : reading.analyzes study.grammar = true
    · have runs : Analyzes reading text study.grammar := ⟨filled, parses.read, asked⟩
      obtain ⟨_, last, _, stable, first, shows⟩ := runs.ended ended
      exact ⟨last + 1, shows, fun _ _ => ⟨last, rfl, stable, first⟩⟩
    · refine ⟨0, plain ?_, fun still => absurd still asked⟩
      exact parses.whole.resolve_right fun runs => asked runs.asked

theorem aligned_of_shows {rounds : Nat}
    (shows : study.grammar.ShowsRounds rounds study.analysis) : Report.Aligned study := by
  have count : study.analysis.stability.roundCount = rounds := by
    simp [Stability.roundCount, shows.marks]
  constructor
  · intro number below
    rw [shows.rules number below, Grammar.history_progress, count, List.length_map, List.length_range]
  · intro name known
    rw [shows.nonterminals name known, Grammar.length_snapshots, count]
  · intro number below snapshot member
    rw [shows.rules number below, Grammar.history_progress] at member
    obtain ⟨round, _, rfl⟩ := List.mem_map.mp member
    exact Grammar.nodup_ruleSnapshot round number
  · intro name known snapshot member
    rw [shows.nonterminals name known] at member
    obtain ⟨round, _, rfl⟩ := List.mem_map.mp member
    exact Grammar.nodup_keys_family _ (round + 1) name

/-- Every rule and every nonterminal of a study that was read has one snapshot for each round. The rounds
of an analysis are unstable but for the last; a snapshot is stable when the one before it has the same
relations, and a round when all its snapshots are. The exported data is accepted by the check of its
form and presents every snapshot. -/
theorem coherent_histories (ended : ofCharacters reading text = .ok study) :
    (∀ number < study.grammar.rules.length,
      (study.analysis.rule number).history.length = study.analysis.stability.roundCount) ∧
    (∀ name ∈ study.grammar.nonterminals.keys,
      (study.analysis.history name).length = study.analysis.stability.roundCount) ∧
    (reading.analyzes study.grammar = true → study.grammar.nonterminals.keys ≠ [] →
      (∃ unstable, 1 ≤ unstable ∧
        study.analysis.stability.marks = List.replicate unstable false ++ [true]) ∧
      (∀ name ∈ study.grammar.nonterminals.keys, ∀ (round : Nat) (snapshot : NonterminalRound),
        (study.analysis.history name)[round]? = some snapshot →
          (snapshot.stable = true ↔ 1 ≤ round ∧ ∃ previous : NonterminalRound,
            (study.analysis.history name)[round - 1]? = some previous ∧
              ∀ edge, edge ∈ snapshot.relations.keys ↔ edge ∈ previous.relations.keys)) ∧
      ∀ (round : Nat) (mark : Bool), study.analysis.stability.marks[round]? = some mark →
        (mark = true ↔ ∀ name ∈ study.grammar.nonterminals.keys, ∃ snapshot : NonterminalRound,
          (study.analysis.history name)[round]? = some snapshot ∧ snapshot.stable = true)) ∧
    ∃ value, Report.data study = .ok value ∧ Report.isValid value = .ok true ∧
      Report.PresentsStudy study value := by
  obtain ⟨ready, rounds, shows, analysed⟩ := shows_of_ok ended
  have aligned := aligned_of_shows shows
  refine ⟨aligned.rules, aligned.nonterminals, fun asked filled => ⟨?_, ?_, ?_⟩,
    Report.data_spec aligned fun _ kept => ready.exists_left kept⟩
  · obtain ⟨last, rfl, stable, first⟩ := analysed asked filled
    refine ⟨last, ?_, by rw [shows.marks, Grammar.map_stableRound stable first]⟩
    by_contra zero
    obtain rfl : last = 0 := by omega
    rw [Grammar.stableRound_zero filled] at stable
    cases stable
  · intro name known round snapshot found
    rw [shows.nonterminals name known] at found ⊢
    obtain ⟨below, rfl⟩ := Sequence.getElem?_map_range_iff.mp found
    exact Grammar.stable_snapshot_iff below
  · intro round mark found
    rw [shows.marks, Sequence.getElem?_map_range_iff] at found
    obtain ⟨below, rfl⟩ := found
    rw [Grammar.stableRound, List.all_eq_true]
    refine forall₂_congr fun name known => ?_
    simp only [shows.nonterminals name known, Grammar.snapshots, Sequence.getElem?_map_range_iff,
      below, true_and, exists_eq_left']

/-- The equation of the third row has no target. -/
def errorInThird : List Char :=
  "S -> A : v[0] = v[1]; s[1] = s[0]\nA -> a : v[0] = s[0]\nA -> b : = v[1]".toList

theorem coherent_errorInThird : ∃ study value,
    ofCharacters { roundLimit := 3, configuration := { analyzeGrammarWithErrors := true } }
      errorInThird = .ok study ∧ study.grammar.hasErrors = true ∧
      study.analysis.stability.marks = [false, false, true] ∧
      (study.analysis.history "A").length = 3 ∧ Report.data study = .ok value ∧
      Report.isValid value = .ok true := by
  have ended : ∃ study, ofCharacters
      { roundLimit := 3, configuration := { analyzeGrammarWithErrors := true } } errorInThird =
        .ok study ∧ study.grammar.hasErrors = true ∧
      study.analysis.stability.marks = [false, false, true] ∧
      study.grammar.nonterminals.keys = ["S", "A"] :=
    ⟨_, by cbv, by cbv, by cbv, by cbv⟩
  obtain ⟨study, ended, errors, marks, keys⟩ := ended
  obtain ⟨_, nonterminals, _, value, made, valid, _⟩ := coherent_histories ended
  have length := nonterminals "A" (by simp [keys])
  rw [Stability.roundCount, marks] at length
  exact ⟨study, value, ended, errors, marks, length, made, valid⟩

end Study
end AttributeGrammar
