import AttributeGrammar.Proofs.Analysis.Fixpoint
import AttributeGrammar.Proofs.Study
import Mathlib

/-! The verdict of the analysis and the relations it ends with.
The grammar counts as acyclic until a cycle is met, and a cycle is met just when some rule is cyclic
with the least relations. If there is none, the rounds are the iterates of the projection.
-/
namespace AttributeGrammar

namespace Analysis

/-- The states that rounds from the beginning go through: between rounds, and within a round after
some of the nonterminals and some rules of the next one. -/
inductive Reached (grammar : Grammar) : Analysis → Prop
  | between {round : Nat} {analysis : Analysis}
      (rounds : Outcome.through (playRound grammar) (List.range round) {} = .done analysis) :
      Reached grammar analysis
  | within {round : Nat} {passed rest : List (String × List Nat)} {entry : String × List Nat}
      {played others : List Nat} {before opened analysis : Analysis}
      (rounds : Outcome.through (playRound grammar) (List.range round) {} = .done before)
      (split : grammar.nonterminals.entries = passed ++ entry :: rest)
      (nonterminals : Outcome.through (playNonterminal grammar round) passed
        { before with stability := before.stability.addRound } = .done opened)
      (numbers : entry.2 = played ++ others)
      (rules : Outcome.through (playRule grammar round entry.1) played (opened.opening entry.1) =
        .done analysis) : Reached grammar analysis

variable {grammar : Grammar} {analysis : Analysis}

theorem rounds_shows (ready : grammar.Ready) {round : Nat}
    (rounds : Outcome.through (playRound grammar) (List.range round) {} = .done analysis) :
    grammar.ShowsRounds round analysis := by
  obtain ⟨final, went, shows⟩ := exists_rounds ready round
  obtain rfl : analysis = final := by simpa [rounds] using went
  exact shows

/-- Whatever state the rounds go through, each rule has its snapshots of some first rounds. -/
theorem Reached.shows (ready : grammar.Ready) (reached : Reached grammar analysis) :
    ∃ histories rounds marks, grammar.Shows histories rounds marks analysis := by
  cases reached with
  | between rounds => exact ⟨_, _, _, rounds_shows ready rounds⟩
  | within rounds split nonterminals numbers rules =>
    obtain ⟨opened, went, state⟩ :=
      played_nonterminals ready split (rounds_shows ready rounds)
    rw [nonterminals] at went
    obtain rfl := Outcome.done.inj went
    obtain ⟨final, went, state⟩ := played_rules ready split numbers state
    rw [rules] at went
    obtain rfl := Outcome.done.inj went
    exact ⟨_, _, _, state⟩

theorem Reached.acyclic (ready : grammar.Ready) (reached : Reached grammar analysis) :
    ∃ rounds : Nat → Nat, analysis.acyclic = true ↔ ∀ number < grammar.rules.length,
      ∀ round < rounds number, (grammar.ruleSnapshot round number).cycleFound = false := by
  obtain ⟨_, rounds, _, shows⟩ := reached.shows ready
  exact ⟨rounds, shows.acyclic⟩

/-- A run of any length ends in a state that the rounds go through. -/
theorem reached_run (ready : grammar.Ready) (limit : Nat) :
    Reached grammar (run limit grammar {}).state := by
  obtain ⟨_, _, rounds⟩ := run_through ready limit
  exact .between rounds

end Analysis

namespace Grammar
variable {grammar : Grammar}

private theorem cyclic_of_cycleFound (ready : grammar.Ready) {round number : Nat}
    (below : number < grammar.rules.length)
    (met : (grammar.ruleSnapshot round number).cycleFound = true) : grammar.Cyclic := by
  by_contra acyclic
  have quiet := (quiet_iff ready).mp (quiet_of_not_cyclic ready acyclic round) number below
  rw [met] at quiet
  cases quiet

private theorem Cyclic.exists_loud (cyclic : grammar.Cyclic) (ready : grammar.Ready) :
    ∃ round ≤ grammar.pairCount, ¬ grammar.Quiet round := by
  by_contra! quiet
  obtain ⟨round, inside, repeated⟩ := exists_repeated ready quiet
  have least := related_eq_least ready (quiet round inside) repeated
  apply quiet round inside
  rw [least]
  exact cyclic

theorem acyclic_iff_of_stable (ready : grammar.Ready) {last : Nat} {analysis : Analysis}
    (stable : grammar.stableRound last = true) (shows : grammar.ShowsRounds (last + 1) analysis) :
    analysis.acyclic = true ↔ ¬ grammar.Cyclic := by
  rw [acyclic_showsRounds ready shows]
  constructor
  · intro quiet
    exact (related_eq_least_of_stable ready stable (quiet last (Nat.lt_succ_self last))).2
  · intro acyclic round _
    exact quiet_of_not_cyclic ready acyclic round

end Grammar

/-- The relations are those between attributes of the left side that `related` tells. -/
def Relations.Express (relations : Relations) (related : String → String → Prop) : Prop :=
  ∀ edge, edge ∈ relations.keys ↔
    ∃ source target, edge = ⟨⟨0, source⟩, ⟨0, target⟩⟩ ∧ related source target

namespace Study
variable {reading : Reading} {text : List Char} {grammar : Grammar}

private theorem Analyzes.acyclic_iff (runs : Analyzes reading text grammar) {study : Study}
    (ended : ofCharacters reading text = .ok study) :
    study.analysis.acyclic = true ↔ ¬ grammar.Cyclic := by
  obtain ⟨_, last, _, stable, _, shows⟩ := runs.ended ended
  exact Grammar.acyclic_iff_of_stable runs.ready stable shows

/-- An analysis that ends tells whether the grammar is strongly acyclic; at no moment is a grammar
called cyclic that is not, and a cyclic one is called so within two rounds more than there are pairs
of attributes. -/
theorem verdict_iff_not_cyclic (runs : Analyzes reading text grammar) :
    (∀ study, ofCharacters reading text = .ok study →
      (study.analysis.acyclic = true ↔ ¬ grammar.Cyclic)) ∧
    (∀ analysis, Analysis.Reached grammar analysis → analysis.acyclic = false → grammar.Cyclic) ∧
    (grammar.Cyclic → ∀ limit, grammar.pairCount + 2 ≤ limit →
      (Analysis.run limit grammar {}).state.acyclic = false) := by
  have ready := runs.ready
  refine ⟨fun study => runs.acyclic_iff, fun analysis reached met => ?_,
    fun cyclic limit enough => ?_⟩
  · obtain ⟨rounds, acyclic⟩ := reached.acyclic ready
    by_contra quiet
    have still := acyclic.mpr fun number below round _ => by
      by_contra found
      exact quiet (Grammar.cyclic_of_cycleFound ready below (Bool.eq_true_of_not_eq_false found))
    rw [met] at still
    cases still
  · rw [← Bool.not_eq_true]
    rcases Analysis.run_cases ready limit with
      ⟨last, final, _, stable, _, went, shows⟩ | ⟨final, _, went, shows⟩
    · rw [went, Outcome.state, Grammar.acyclic_iff_of_stable ready stable shows]
      exact not_not_intro cyclic
    · rw [went, Outcome.state, Grammar.acyclic_showsRounds ready shows]
      obtain ⟨round, inside, loud⟩ := cyclic.exists_loud ready
      exact fun quiet => loud (quiet round (by omega))

/-- The relation of the second rule closes a cycle in the first. -/
def cycleThroughChild : List Char :=
  "S -> A : i[1] = s[1]; r[0] = s[1]\nA -> a : s[0] = i[0]".toList

theorem cyclic_cycleThroughChild : ∃ study,
    ofCharacters { roundLimit := 9 } cycleThroughChild = .ok study ∧
      study.analysis.acyclic = false ∧ study.grammar.Cyclic := by
  have runs : ∃ grammar, Analyzes { roundLimit := 9 } cycleThroughChild grammar :=
    ⟨_, by cbv, by cbv, by cbv⟩
  have ended : ∃ study, ofCharacters { roundLimit := 9 } cycleThroughChild = .ok study ∧
      study.analysis.acyclic = false :=
    ⟨_, by cbv, by cbv⟩
  obtain ⟨grammar, runs⟩ := runs
  obtain ⟨study, ended, met⟩ := ended
  refine ⟨study, ended, met, ?_⟩
  have verdict := (verdict_iff_not_cyclic runs).1 study ended
  rw [(runs.ended ended).1]
  simpa [met] using verdict

/-- For a strongly acyclic grammar the analysis ends within two rounds more than there are pairs of
attributes. The relations of round `r` are the iterate `r + 1` of the projection; they only grow, and
the last ones are the least relations. -/
theorem ends_with_leastRelations (runs : Analyzes reading text grammar)
    (acyclic : ¬ grammar.Cyclic) (enough : grammar.pairCount + 2 ≤ reading.roundLimit) :
    ∃ study, ofCharacters reading text = .ok study ∧ study.grammar = grammar ∧
      study.analysis.stability.roundCount ≤ grammar.pairCount + 2 ∧
      ∀ name, grammar.Defines name → ∃ snapshots : List NonterminalRound,
        study.analysis.history name = snapshots ∧
        snapshots.length = study.analysis.stability.roundCount ∧
        (∀ (round : Nat) (snapshot : NonterminalRound), snapshots[round]? = some snapshot →
          snapshot.relations.Express (grammar.project^[round + 1] ⊥ name)) ∧
        snapshots.Pairwise (fun earlier later => earlier.relations.keys ⊆ later.relations.keys) ∧
        ∃ last, snapshots.getLast? = some last ∧
          last.relations.Express (grammar.leastRelations name) := by
  have ready := runs.ready
  have quiet := Grammar.quiet_of_not_cyclic ready acyclic
  obtain ⟨bound, inside, steady⟩ := Grammar.exists_stable ready acyclic
  rcases runs.cases with ⟨last, analysis, _, stable, first, ended, shows⟩ | ⟨unstable, _⟩
  swap
  · rw [unstable bound (by omega)] at steady
    cases steady
  have count : analysis.stability.roundCount = last + 1 := by
    simp [Stability.roundCount, shows.marks]
  have early : last ≤ bound := by
    by_contra late
    rw [first bound (by omega)] at steady
    cases steady
  have least : analysis.stability.roundCount ≤ grammar.pairCount + 2 := by omega
  refine ⟨⟨grammar, analysis⟩, ended, rfl, least, fun name defined => ?_⟩
  have history := shows.nonterminals name (ready.mem_keys_iff.mpr defined)
  have express (round : Nat) : (grammar.snapshot round name).relations.Express
      (grammar.project^[round + 1] ⊥ name) := by
    intro edge
    rw [← Grammar.related_family_eq ready fun earlier _ => quiet earlier]
    exact Grammar.mem_keys_family ready
  refine ⟨_, history, by simp [count], fun round snapshot found => ?_, ?_,
    grammar.snapshot last name, by simp, fun edge => ?_⟩
  · simp only [Grammar.snapshots, List.getElem?_map, Option.map_eq_some_iff] at found
    obtain ⟨place, here, rfl⟩ := found
    obtain ⟨_, rfl⟩ := List.getElem?_eq_some_iff.mp here
    simpa using express round
  · rw [Grammar.snapshots, List.pairwise_map]
    refine List.pairwise_lt_range.imp fun {earlier later} less edge member => ?_
    obtain ⟨source, target, rfl, related⟩ := (express earlier edge).mp member
    refine (express later _).mpr ⟨source, target, rfl, ?_⟩
    exact Monotone.monotone_iterate_of_le_map grammar.project.monotone bot_le
      (Nat.succ_le_succ less.le) name source target related
  · rw [express last edge, ← Grammar.related_family_eq ready fun earlier _ => quiet earlier,
      Grammar.related_eq_of_stable ready stable,
      (Grammar.related_eq_least_of_stable ready stable (quiet last)).1]

/-- The relation of the second rule gives the first rule one in the round after. -/
def relationThroughChild : List Char :=
  "S -> A : v[0] = v[1]; s[1] = s[0]\nA -> a : v[0] = s[0]".toList

theorem leastRelations_relationThroughChild : ∃ study,
    ofCharacters { roundLimit := 6 } relationThroughChild = .ok study ∧
      ∃ last, (study.analysis.history "S").getLast? = some last ∧
        last.relations.keys = [⟨⟨0, "s"⟩, ⟨0, "v"⟩⟩] ∧
        last.relations.Express (study.grammar.leastRelations "S") := by
  have runs : ∃ grammar, Analyzes { roundLimit := 6 } relationThroughChild grammar ∧
      grammar.pairCount = 4 ∧ grammar.numbersOf "S" = [0] :=
    ⟨_, ⟨by cbv, by cbv, by cbv⟩, by rfl, by rfl⟩
  have ended : ∃ study, ofCharacters { roundLimit := 6 } relationThroughChild = .ok study ∧
      study.analysis.acyclic = true ∧ ∃ last, (study.analysis.history "S").getLast? = some last ∧
        last.relations.keys = [⟨⟨0, "s"⟩, ⟨0, "v"⟩⟩] :=
    ⟨_, by cbv, by cbv, _, by cbv, by cbv⟩
  obtain ⟨grammar, runs, pairs, numbers⟩ := runs
  obtain ⟨study, ended, acyclic, last, found, keys⟩ := ended
  obtain ⟨same, went, rfl, _, all⟩ := ends_with_leastRelations runs
    ((runs.acyclic_iff ended).mp acyclic) (by rw [pairs])
  obtain rfl : study = same := by simpa [ended] using went
  obtain ⟨_, rfl, _, _, _, final, there, least⟩ :=
    all "S" (Grammar.defines_iff.mpr (by simp [numbers]))
  obtain rfl : last = final := by simpa [found] using there
  exact ⟨study, ended, last, found, keys, least⟩

end Study
end AttributeGrammar
