import AttributeGrammar.Proofs.History
import Mathlib

/-! When a cycle is reported.
The search from an attribute ends with a cycle just when the attribute is on one, so the snapshot of a
rule shows a cycle just when the graph that was searched has one. A step that records such a snapshot
takes the verdict back, and no step gives it again.
-/
namespace AttributeGrammar

namespace RuleRound

private theorem cycleFound_record_iff {findings : Findings} {snapshot : RuleRound} :
    (snapshot.record findings).cycleFound = true ↔
      findings.cycleStarts ≠ [] ∨ snapshot.cycleFound = true := by
  rw [← Bool.not_eq_false, cycleFound_record, not_and_or, Bool.not_eq_false, or_comm]

end RuleRound

namespace Analysis
variable {grammar : Grammar} {analysis before after : Analysis}

/-- Some snapshot that was recorded so far shows a cycle. -/
def MetCycle (analysis : Analysis) : Prop :=
  ∃ number, ∃ snapshot ∈ (analysis.rule number).history, snapshot.cycleFound = true

/-- A step of the analysis: a round begins, the next nonterminal is opened, one of its rules is played,
or it is judged. A step that meets a fault leaves what it had done until then. -/
inductive Moves (grammar : Grammar) : Analysis → Analysis → Prop
  | begun (analysis : Analysis) :
      Moves grammar analysis { analysis with stability := analysis.stability.addRound }
  | opened (name : String) (analysis : Analysis) : Moves grammar analysis (analysis.opening name)
  | played (round : Nat) (name : String) (number : Nat) (analysis : Analysis) :
      Moves grammar analysis (playRule grammar round name number analysis).state
  | judged (round : Nat) (name : String) (previous : NonterminalRound) (analysis : Analysis) :
      Moves grammar analysis (judge round name previous analysis).state

/-! ### What a step changes -/

/-- Another snapshot in the place of one, which shows a cycle besides or does not. -/
theorem exists_cycle_set {history : List RuleRound} {round : Nat} {old new : RuleRound} {found : Prop}
    (here : history[round]? = some old)
    (shows : new.cycleFound = true ↔ found ∨ old.cycleFound = true) :
    (∃ snapshot ∈ history.set round new, snapshot.cycleFound = true) ↔
      found ∨ ∃ snapshot ∈ history, snapshot.cycleFound = true := by
  obtain ⟨inside, rfl⟩ := List.getElem?_eq_some_iff.mp here
  have split : history = history.take round ++ history[round] :: history.drop (round + 1) := by
    rw [List.getElem_cons_drop, List.take_append_drop]
  have members : (∃ snapshot ∈ history, snapshot.cycleFound = true) ↔
      ∃ snapshot ∈ history.take round ++ history[round] :: history.drop (round + 1),
        snapshot.cycleFound = true := by rw [← split]
  rw [members, List.set_eq_take_append_cons_drop, if_pos inside]
  simp only [List.mem_append, List.mem_cons, or_and_right, exists_or, exists_eq_left, shows]
  rw [or_assoc, or_left_comm]

private theorem metCycle_withRule {number : Nat} {progress : RuleProgress} {found : Prop}
    (shows : (∃ snapshot ∈ progress.history, snapshot.cycleFound = true) ↔
      found ∨ ∃ snapshot ∈ (analysis.rule number).history, snapshot.cycleFound = true) :
    MetCycle (analysis.withRule number progress) ↔ found ∨ MetCycle analysis := by
  constructor
  · rintro ⟨other, snapshot, member, met⟩
    rw [rule_withRule] at member
    split at member
    · rcases shows.mp ⟨snapshot, member, met⟩ with new | old
      · exact Or.inl new
      · exact Or.inr ⟨number, old⟩
    · exact Or.inr ⟨other, snapshot, member, met⟩
  · rintro (new | ⟨other, old⟩)
    · exact ⟨number, by rw [rule_withRule, if_pos rfl]; exact shows.mpr (Or.inl new)⟩
    · by_cases same : other = number
      · subst same
        exact ⟨other, by rw [rule_withRule, if_pos rfl]; exact shows.mpr (Or.inr old)⟩
      · exact ⟨other, by rw [rule_withRule, if_neg same]; exact old⟩

private theorem exists_cycle_opened {history : List RuleRound} :
    (∃ snapshot ∈ history ++ [({} : RuleRound)], snapshot.cycleFound = true) ↔
      ∃ snapshot ∈ history, snapshot.cycleFound = true := by
  simp [RuleRound.cycleFound]

private theorem state_ofFault? (fault? : Option Fault) (state : Analysis) :
    (Outcome.ofFault? fault? state).state = state := by
  cases fault? <;> rfl

/-- The verdict is taken back by a step just when the step records a snapshot that shows a cycle. -/
def Reports (before after : Analysis) : Prop :=
  ∃ found : Prop, (MetCycle after ↔ found ∨ MetCycle before) ∧
    (after.acyclic = false ↔ found ∨ before.acyclic = false)

private theorem reports_of_same (rules : after.rules = before.rules)
    (acyclic : after.acyclic = before.acyclic) :
    Reports before after := by
  have same (number : Nat) : after.rule number = before.rule number := by
    rw [Analysis.rule, Analysis.rule, rules]
  exact ⟨False, by simp only [MetCycle, same, false_or], by rw [acyclic, false_or]⟩

private theorem reports_playRule (round : Nat) (name : String) (number : Nat) (analysis : Analysis) :
    Reports analysis (playRule grammar round name number analysis).state := by
  unfold playRule
  split
  · exact reports_of_same rfl rfl
  dsimp only
  split
  · refine ⟨False, metCycle_withRule ?_, by rw [false_or]; rfl⟩
    rw [false_or]
    exact exists_cycle_opened
  · next snapshot here =>
    split
    · refine ⟨False, metCycle_withRule ?_, by rw [false_or]; rfl⟩
      refine (exists_cycle_set here ?_).trans (or_congr_right exists_cycle_opened)
      rw [false_or]
      rfl
    · rw [state_ofFault?]
      generalize RuleGraph.findings _ = findings
      refine ⟨findings.cycleStarts ≠ [], metCycle_withRule ?_, ?_⟩
      · refine (exists_cycle_set here ?_).trans (or_congr_right exists_cycle_opened)
        exact RuleRound.cycleFound_record_iff
      · rw [Bool.and_eq_false_iff, List.isEmpty_eq_false_iff, or_comm]

private theorem rules_judge (round : Nat) (name : String) (previous : NonterminalRound)
    (analysis : Analysis) :
    (judge round name previous analysis).state.rules = analysis.rules ∧
      (judge round name previous analysis).state.acyclic = analysis.acyclic := by
  unfold judge
  dsimp only
  split
  · exact ⟨rfl, rfl⟩
  · split
    · exact ⟨rfl, rfl⟩
    · split <;> exact ⟨rfl, rfl⟩

private theorem Moves.reports (moves : Moves grammar before after) : Reports before after := by
  cases moves with
  | begun => exact reports_of_same rfl rfl
  | opened => exact reports_of_same rfl rfl
  | played round name number => exact reports_playRule round name number before
  | judged round name previous =>
    obtain ⟨rules, acyclic⟩ := rules_judge round name previous before
    exact reports_of_same rules acyclic

/-! ### What a run changes -/

open Relation (ReflTransGen)

/-- At every point of any run the grammar counts as cyclic just when a cycle was met. -/
theorem acyclic_eq_false_iff (moves : ReflTransGen (Moves grammar) {} analysis) :
    analysis.acyclic = false ↔ MetCycle analysis := by
  induction moves with
  | refl => simp [MetCycle, Analysis.rule]
  | tail _ step ih =>
    obtain ⟨found, met, acyclic⟩ := step.reports
    rw [acyclic, met, ih]

private theorem acyclic_eq_false_of_moves (moves : ReflTransGen (Moves grammar) before after)
    (cyclic : before.acyclic = false) : after.acyclic = false := by
  induction moves with
  | refl => exact cyclic
  | tail _ step ih =>
    obtain ⟨_, _, acyclic⟩ := step.reports
    exact acyclic.mpr (Or.inr ih)

/-! ### Rounds as steps -/

private theorem moves_andThen {first : Outcome Analysis} {next : Analysis → Outcome Analysis}
    (start : ReflTransGen (Moves grammar) before first.state)
    (further : ∀ middle, ReflTransGen (Moves grammar) middle (next middle).state) :
    ReflTransGen (Moves grammar) before (first.andThen next).state := by
  cases first with
  | done middle => exact start.trans (further middle)
  | stopped fault middle => exact start

private theorem moves_through {Item : Type} {step : Item → Analysis → Outcome Analysis}
    (each : ∀ item analysis, ReflTransGen (Moves grammar) analysis (step item analysis).state)
    (items : List Item) (analysis : Analysis) :
    ReflTransGen (Moves grammar) analysis (Outcome.through step items analysis).state := by
  induction items generalizing analysis with
  | nil => exact .refl
  | cons item rest ih => exact moves_andThen (each item analysis) ih

private theorem moves_playRule (round : Nat) (name : String) (number : Nat) (analysis : Analysis) :
    ReflTransGen (Moves grammar) analysis (playRule grammar round name number analysis).state :=
  .single (.played round name number analysis)

private theorem moves_playNonterminal (round : Nat) (entry : String × List Nat) (analysis : Analysis) :
    ReflTransGen (Moves grammar) analysis (playNonterminal grammar round entry analysis).state := by
  have opened : ReflTransGen (Moves grammar) analysis (analysis.opening entry.1) :=
    .single (.opened entry.1 analysis)
  unfold playNonterminal
  dsimp only
  split
  · exact opened
  · next previous _ =>
    have rules := moves_through (@moves_playRule grammar round entry.1) entry.2
    exact moves_andThen (opened.trans (rules _)) fun middle =>
      .single (.judged round entry.1 previous middle)

private theorem moves_playRound (round : Nat) (analysis : Analysis) :
    ReflTransGen (Moves grammar) analysis (playRound grammar round analysis).state :=
  (ReflTransGen.single (.begun analysis)).trans
    (moves_through (moves_playNonterminal round) grammar.nonterminals.entries _)

private theorem moves_of_done {Item : Type} {step : Item → Analysis → Outcome Analysis}
    {items : List Item}
    (each : ∀ item analysis, ReflTransGen (Moves grammar) analysis (step item analysis).state)
    (went : Outcome.through step items before = .done after) :
    ReflTransGen (Moves grammar) before after := by
  have moves := moves_through each items before
  rwa [went] at moves

private theorem Reached.moves (reached : Reached grammar analysis) :
    ReflTransGen (Moves grammar) {} analysis := by
  cases reached with
  | between rounds => exact moves_of_done moves_playRound rounds
  | @within round _ _ entry _ _ before opened _ rounds _ nonterminals _ rules =>
    have begun := (moves_of_done moves_playRound rounds).tail (.begun before)
    have passed := begun.trans (moves_of_done (moves_playNonterminal round) nonterminals)
    exact (passed.tail (.opened entry.1 opened)).trans
      (moves_of_done (moves_playRule round entry.1) rules)

/-! ### Which snapshots show a cycle -/

theorem Reached.history (ready : grammar.Ready) (reached : Reached grammar analysis) {number : Nat}
    (below : number < grammar.rules.length) : ∃ rounds, (analysis.rule number).history =
      (List.range rounds).map (grammar.ruleSnapshot · number) := by
  obtain ⟨_, rounds, _, shows⟩ := reached.shows ready
  exact ⟨rounds number, by rw [shows.rules number below, Grammar.history_progress]⟩

end Analysis

namespace Grammar
variable {grammar : Grammar} {rule : Rule}

private theorem cycleFound_iff_cyclic (ready : grammar.Ready) {round number : Nat}
    (found : grammar.rules[number]? = some rule) :
    (grammar.ruleSnapshot round number).cycleFound = true ↔
      (RuleGraph.mk rule (grammar.ruleSnapshot round number).redecorated.entries).Cyclic := by
  rw [← Bool.not_eq_false, cycleFound_ruleSnapshot ready found, graph_ruleSnapshot ready found,
    not_not]

end Grammar

namespace Study
open Analysis Relation
variable {reading : Reading} {text : List Char} {grammar : Grammar}

theorem Parses.reached (parses : Parses reading text grammar) {study : Study}
    (ended : ofCharacters reading text = .ok study) : Reached grammar study.analysis := by
  rcases parses.whole with plain | runs
  · rw [plain] at ended
    obtain rfl := Except.ok.inj ended
    exact @Reached.between grammar 0 {} rfl
  · have reached := reached_run parses.ready reading.roundLimit
    rw [runs.outcome, analyze_eq] at ended
    split at ended
    · next analysis went =>
      obtain rfl := Except.ok.inj ended
      rwa [went] at reached
    · cases ended

/-- Any number of rounds can be played on the grammar of a text, and whatever state they go through, the
snapshot of a rule for a round shows a cycle just when the rule with what the round put on its children
has one. Each state is reached by steps from the beginning; at every point that steps lead to, the
grammar counts as cyclic just when one of the snapshots recorded by then shows a cycle, and it does so
ever after. -/
theorem cycle_flags
    (read : ofCharacters { reading with analyze := false } text = .ok { grammar := grammar }) :
    (∀ rounds, ∃ analysis, Reached grammar analysis ∧
      ∀ number < grammar.rules.length, (analysis.rule number).history.length = rounds) ∧
    (∀ study, ofCharacters reading text = .ok study →
      study.grammar = grammar ∧ Reached grammar study.analysis) ∧
    (∀ limit, Reached grammar (run limit grammar {}).state) ∧
    (∀ analysis, Reached grammar analysis → ReflTransGen (Moves grammar) {} analysis ∧
      ∀ (number round : Nat) (rule : Rule) (snapshot : RuleRound),
        grammar.rules[number]? = some rule →
        (analysis.rule number).history[round]? = some snapshot →
          (snapshot.cycleFound = true ↔ (RuleGraph.mk rule snapshot.redecorated.entries).Cyclic)) ∧
    ∀ analysis, ReflTransGen (Moves grammar) {} analysis →
      (analysis.acyclic = false ↔
        ∃ number, ∃ snapshot ∈ (analysis.rule number).history, snapshot.cycleFound = true) ∧
      ∀ later, ReflTransGen (Moves grammar) analysis later →
        analysis.acyclic = false → later.acyclic = false := by
  have calm := not_reaches_of_ok read
  obtain ⟨same, parses⟩ : ∃ same, Parses reading text same := exists_grammar calm
  obtain rfl : grammar = same := by simpa [parses.read] using read.symm
  have ready := parses.ready
  refine ⟨fun rounds => ?_, fun study ended => ⟨parses.unique ended, parses.reached ended⟩,
    reached_run ready, fun analysis reached => ⟨reached.moves, ?_⟩,
    fun analysis moves => ⟨acyclic_eq_false_iff moves, fun later => acyclic_eq_false_of_moves⟩⟩
  · obtain ⟨analysis, went, shows⟩ := exists_rounds ready rounds
    refine ⟨analysis, .between went, fun number below => ?_⟩
    rw [shows.rules number below, Grammar.history_progress, List.length_map, List.length_range]
  · intro number round rule snapshot found here
    obtain ⟨rounds, history⟩ := reached.history ready (List.getElem?_eq_some_iff.mp found).1
    rw [history, Sequence.getElem?_map_range_iff] at here
    obtain ⟨_, rfl⟩ := here
    exact Grammar.cycleFound_iff_cyclic ready found

/-- Neither rule is cyclic by itself; the relations of the two children close a cycle through both. -/
def cycleThroughBoth : List Char :=
  "S -> A A : i[1] = s[2]; i[2] = s[1]\nA -> a : s[0] = i[0]".toList

theorem cycle_flags_cycleThroughBoth : ∃ study rule first second,
    ofCharacters { roundLimit := 9 } cycleThroughBoth = .ok study ∧
      study.grammar.rules[0]? = some rule ∧
      (study.analysis.rule 0).history[0]? = some first ∧
      (study.analysis.rule 0).history[1]? = some second ∧
      ¬ (RuleGraph.mk rule first.redecorated.entries).Cyclic ∧
      (RuleGraph.mk rule second.redecorated.entries).Cyclic ∧ study.analysis.acyclic = false := by
  have read : ∃ grammar, ofCharacters { roundLimit := 9, analyze := false } cycleThroughBoth =
      .ok { grammar := grammar } := ⟨_, by cbv⟩
  have ended : ∃ study rule first second,
      ofCharacters { roundLimit := 9 } cycleThroughBoth = .ok study ∧
        study.grammar.rules[0]? = some rule ∧
        (study.analysis.rule 0).history[0]? = some first ∧
        (study.analysis.rule 0).history[1]? = some second ∧
        first.cycleFound = false ∧ second.cycleFound = true :=
    ⟨_, _, _, _, by cbv, by cbv, by cbv, by cbv, by cbv, by cbv⟩
  obtain ⟨grammar, read⟩ := read
  obtain ⟨study, rule, first, second, ended, found, here, there, quiet, met⟩ := ended
  obtain ⟨_, ends, _, flags, points⟩ := @cycle_flags { roundLimit := 9 } cycleThroughBoth grammar read
  obtain ⟨rfl, reached⟩ := ends study ended
  obtain ⟨moves, shows⟩ := flags study.analysis reached
  refine ⟨study, rule, first, second, ended, found, here, there, ?_, ?_, ?_⟩
  · rw [← shows 0 0 rule first found here, quiet]
    exact Bool.false_ne_true
  · exact (shows 0 1 rule second found there).mp met
  · exact (points study.analysis moves).1.mpr ⟨0, second, List.mem_of_getElem? there, met⟩

end Study
end AttributeGrammar
