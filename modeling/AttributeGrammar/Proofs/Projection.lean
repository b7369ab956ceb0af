import AttributeGrammar.Proofs.Redecoration
import Mathlib

/-! The projections of the rules and the relations gathered from them.
A projection joins two attributes of the left side of which one leads to the other in the graph of the
rule; only a cycle through the first of them can keep such a pair from being found. What a nonterminal
has as relations in a round are the projections of those of its rules that were played in it.
-/
namespace AttributeGrammar
open Relation (TransGen)

namespace RuleGraph

/-- The projections are told by the paths of the graph between attributes of the left side, but for the
paths from attributes on a cycle, of which some may be left out. -/
structure Projected (graph : RuleGraph) (projections : Relations) : Prop where
  paths : ∀ edge ∈ projections.keys, ∃ source target, edge = ⟨⟨0, source⟩, ⟨0, target⟩⟩ ∧
    source ≠ target ∧ TransGen graph.Leads ⟨0, source⟩ ⟨0, target⟩
  complete : ∀ source target, ¬ TransGen graph.Leads ⟨0, source⟩ ⟨0, source⟩ →
    TransGen graph.Leads ⟨0, source⟩ ⟨0, target⟩ → ⟨⟨0, source⟩, ⟨0, target⟩⟩ ∈ projections.keys
  exact : ¬ graph.Cyclic → projections.Express fun source target =>
    TransGen graph.Leads ⟨0, source⟩ ⟨0, target⟩

private theorem projected_findings {graph : RuleGraph} (sound : graph.Sound) {projections : Relations}
    (keys : ∀ edge, edge ∈ projections.keys ↔ edge ∈ graph.findings.projections.map Prod.fst) :
    graph.Projected projections := by
  have paths {edge : Edge} (member : edge ∈ projections.keys) :
      ∃ source target, edge = ⟨⟨0, source⟩, ⟨0, target⟩⟩ ∧ source ≠ target ∧
        TransGen graph.Leads ⟨0, source⟩ ⟨0, target⟩ :=
    path_of_projection sound ((keys edge).mp member)
  have complete (source target : String) (alone : ¬ TransGen graph.Leads ⟨0, source⟩ ⟨0, source⟩)
      (path : TransGen graph.Leads ⟨0, source⟩ ⟨0, target⟩) :
      ⟨⟨0, source⟩, ⟨0, target⟩⟩ ∈ projections.keys :=
    (keys _).mpr (projection_of_path sound alone path)
  refine ⟨fun edge => paths, complete, fun acyclic edge => ⟨fun member => ?_, ?_⟩⟩
  · obtain ⟨source, target, same, _, path⟩ := paths member
    exact ⟨source, target, same, path⟩
  · rintro ⟨source, target, rfl, path⟩
    exact complete source target (fun cycle => acyclic ⟨_, cycle⟩) path

end RuleGraph

namespace Grammar
variable {grammar : Grammar} {rule : Rule}

private theorem projected_ruleSnapshot (ready : grammar.Ready) {round number : Nat}
    (found : grammar.rules[number]? = some rule) :
    (RuleGraph.mk rule (grammar.ruleSnapshot round number).redecorated.entries).Projected
      (grammar.ruleSnapshot round number).projections := by
  rw [graph_ruleSnapshot ready found]
  refine RuleGraph.projected_findings
    (ready.sound_graph (ready.within_family round) (List.mem_of_getElem? found)) fun edge => ?_
  rw [mem_projections_ruleSnapshot, projections, found, Option.elim_some]

end Grammar

namespace Analysis
variable {grammar : Grammar} {analysis : Analysis} {round : Nat} {name : String}

/-! ### What the nonterminals gather -/

/-- Each snapshot of a nonterminal has just the projections of its rules in the same round. -/
def Gathers (grammar : Grammar) (analysis : Analysis) : Prop :=
  ∀ name ∈ grammar.nonterminals.keys, ∀ (round : Nat) (snapshot : NonterminalRound),
    (analysis.history name)[round]? = some snapshot → ∀ edge, edge ∈ snapshot.relations.keys ↔
      ∃ number ∈ grammar.numbersOf name, ∃ projected : RuleRound,
        (analysis.rule number).history[round]? = some projected ∧ edge ∈ projected.projections.keys

/-- The snapshot was made from those rules of the nonterminal that were played in the round. -/
def MadeOfPlayed (grammar : Grammar) (rounds : Nat → Nat) (name : String) (round : Nat)
    (snapshot : NonterminalRound) : Prop :=
  ∃ played : List Nat, snapshot.relations = relationsSoFar grammar round played ∧
    ∀ number, number ∈ played ↔ number ∈ grammar.numbersOf name ∧ round < rounds number

private theorem mem_relationsSoFar {played : List Nat} {edge : Edge} :
    edge ∈ (relationsSoFar grammar round played).keys ↔
      ∃ number ∈ played, edge ∈ (grammar.ruleSnapshot round number).projections.keys := by
  rw [relationsSoFar, Relations.ofList, OrderedMap.mem_keys_insertAll, List.map_flatMap]
  simp [Grammar.mem_projections_ruleSnapshot]

private theorem gathers_of_shows {histories : String → List NonterminalRound} {rounds : Nat → Nat}
    {marks : List Bool} (shows : grammar.Shows histories rounds marks analysis)
    (made : ∀ name ∈ grammar.nonterminals.keys, ∀ (round : Nat) (snapshot : NonterminalRound),
      (histories name)[round]? = some snapshot → MadeOfPlayed grammar rounds name round snapshot) :
    Gathers grammar analysis := by
  intro name known round snapshot here edge
  rw [shows.nonterminals name known] at here
  obtain ⟨played, relations, counted⟩ := made name known round snapshot here
  rw [relations, mem_relationsSoFar]
  have kept {number : Nat} (listed : number ∈ grammar.numbersOf name) {projected : RuleRound} :
      (analysis.rule number).history[round]? = some projected ↔
        round < rounds number ∧ grammar.ruleSnapshot round number = projected := by
    obtain ⟨_, found, _⟩ := Grammar.mem_numbersOf.mp listed
    rw [shows.rules number (List.getElem?_eq_some_iff.mp found).1, Grammar.history_progress,
      Sequence.getElem?_map_range_iff]
  constructor
  · rintro ⟨number, member, projected⟩
    obtain ⟨listed, before⟩ := (counted number).mp member
    exact ⟨number, listed, _, (kept listed).mpr ⟨before, rfl⟩, projected⟩
  · rintro ⟨number, listed, _, there, projected⟩
    obtain ⟨before, rfl⟩ := (kept listed).mp there
    exact ⟨number, (counted number).mpr ⟨listed, before⟩, projected⟩

private theorem madeOfPlayed_snapshots {rounds : Nat → Nat} {count : Nat} {snapshot : NonterminalRound}
    (all : ∀ number ∈ grammar.numbersOf name, count ≤ rounds number)
    (here : (grammar.snapshots count name)[round]? = some snapshot) :
    MadeOfPlayed grammar rounds name round snapshot := by
  obtain ⟨before, rfl⟩ := Sequence.getElem?_map_range_iff.mp here
  exact ⟨grammar.numbersOf name, rfl, fun number =>
    ⟨fun listed => ⟨listed, before.trans_le (all number listed)⟩, And.left⟩⟩

private theorem gathers_between (shows : grammar.ShowsRounds round analysis) :
    Gathers grammar analysis :=
  gathers_of_shows shows fun _ _ _ _ => madeOfPlayed_snapshots fun _ _ => Nat.le_refl round

/-- In the midst of a round only the nonterminal that is open has not all of its rules played. -/
theorem gathers_played (ready : grammar.Ready) {passed rest : List (String × List Nat)}
    {entry : String × List Nat} (split : grammar.nonterminals.entries = passed ++ entry :: rest)
    {played others : List Nat} (numbers : entry.2 = played ++ others)
    (state : Played grammar round passed entry.1 played analysis) : Gathers grammar analysis := by
  have listed : entry.2 = grammar.numbersOf entry.1 := numbers_of_mem ready (by simp [split])
  refine gathers_of_shows state fun name known current snapshot here => ?_
  by_cases same : name = entry.1
  · subst same
    rw [Function.update_self] at here
    -- Its last snapshot is made of the rules played so far, which no nonterminal before it has.
    rcases Sequence.getElem?_concat_cases here with past | ⟨now, rfl⟩
    · refine madeOfPlayed_snapshots (fun number _ => ?_) past
      split <;> omega
    · rw [Grammar.length_snapshots] at now
      subst now
      refine ⟨played, rfl, fun number => ⟨fun member => ?_, fun ⟨own, further⟩ => ?_⟩⟩
      · simp [← listed, numbers, member]
      · have outside := not_played ready split (listed ▸ own)
        by_contra missing
        simp [outside, missing] at further
  · rw [Function.update_of_ne same] at here
    refine madeOfPlayed_snapshots (fun number own => ?_) here
    split
    · next already =>
      obtain ⟨other, member, rfl⟩ := List.mem_map.mp already
      have there : number ∈ other.2 := by
        rw [numbers_of_mem ready (by simp [split, member])]
        exact own
      rw [if_pos (Or.inl (List.mem_flatMap.mpr ⟨other, member, there⟩))]
    · split <;> omega

private theorem Reached.gathers (ready : grammar.Ready) (reached : Reached grammar analysis) :
    Gathers grammar analysis := by
  cases reached with
  | between rounds => exact gathers_between (rounds_shows ready rounds)
  | within rounds split nonterminals numbers rules =>
    obtain ⟨_, went, state⟩ := played_nonterminals ready split (rounds_shows ready rounds)
    obtain rfl := Outcome.done.inj (nonterminals.symm.trans went)
    obtain ⟨_, went, state⟩ := played_rules ready split numbers state
    obtain rfl := Outcome.done.inj (rules.symm.trans went)
    exact gathers_played ready split numbers state

end Analysis

namespace Study
open Analysis
variable {reading : Reading} {text : List Char} {grammar : Grammar}

/-- Whatever state the rounds go through, the projections that a rule has of a round are told by the graph
that the rule had in it, and the relations that a nonterminal has of a round are the projections of its
rules in that round. -/
theorem root_projections
    (read : ofCharacters { reading with analyze := false } text = .ok { grammar := grammar }) :
    (∀ rounds, ∃ analysis, Reached grammar analysis ∧
      ∀ number < grammar.rules.length, (analysis.rule number).history.length = rounds) ∧
    (∀ study, ofCharacters reading text = .ok study →
      study.grammar = grammar ∧ Reached grammar study.analysis) ∧
    ∀ analysis, Reached grammar analysis →
      (∀ (number round : Nat) (rule : Rule) (snapshot : RuleRound),
        grammar.rules[number]? = some rule →
        (analysis.rule number).history[round]? = some snapshot →
          (RuleGraph.mk rule snapshot.redecorated.entries).Projected snapshot.projections) ∧
      Gathers grammar analysis := by
  have parses := parses_of_read read
  have ready := parses.ready
  refine ⟨exists_reached ready, fun study ended => ⟨parses.unique ended, parses.reached ended⟩,
    fun analysis reached => ⟨fun number round rule snapshot found here => ?_, reached.gathers ready⟩⟩
  obtain ⟨rounds, history⟩ := reached.history ready (List.getElem?_eq_some_iff.mp found).1
  rw [history, Sequence.getElem?_map_range_iff] at here
  obtain ⟨_, rfl⟩ := here
  exact Grammar.projected_ruleSnapshot ready found

/-- A path through the left side, and a cycle that none of its attributes is on. -/
def pathBesideCycle : List Char := "S -> a : b[0] = a[0]; c[0] = b[0]; x[1] = x[1]".toList

theorem root_projections_pathBesideCycle : ∃ study rule snapshot gathered,
    ofCharacters { roundLimit := 9 } pathBesideCycle = .ok study ∧
      study.grammar.rules[0]? = some rule ∧
      (study.analysis.rule 0).history[0]? = some snapshot ∧
      (study.analysis.history "S")[0]? = some gathered ∧ snapshot.cycleFound = true ∧
      TransGen (RuleGraph.mk rule snapshot.redecorated.entries).Leads ⟨0, "a"⟩ ⟨0, "c"⟩ ∧
      ⟨⟨0, "a"⟩, ⟨0, "c"⟩⟩ ∈ gathered.relations.keys := by
  have read : ∃ grammar, ofCharacters { roundLimit := 9, analyze := false } pathBesideCycle =
      .ok { grammar := grammar } := ⟨_, by cbv⟩
  have ended : ∃ study rule snapshot gathered,
      ofCharacters { roundLimit := 9 } pathBesideCycle = .ok study ∧
        study.grammar.rules[0]? = some rule ∧
        (study.analysis.rule 0).history[0]? = some snapshot ∧
        (study.analysis.history "S")[0]? = some gathered ∧ snapshot.cycleFound = true ∧
        study.grammar.nonterminals.keys = ["S"] ∧ study.grammar.numbersOf "S" = [0] ∧
        snapshot.projections.keys =
          [⟨⟨0, "a"⟩, ⟨0, "b"⟩⟩, ⟨⟨0, "b"⟩, ⟨0, "c"⟩⟩, ⟨⟨0, "a"⟩, ⟨0, "c"⟩⟩] :=
    ⟨_, _, _, _, by cbv, by cbv, by cbv, by cbv, by cbv, by cbv, by cbv, by cbv⟩
  obtain ⟨grammar, read⟩ := read
  obtain ⟨study, rule, snapshot, gathered, ended, found, here, there, met, known, own, keys⟩ := ended
  obtain ⟨_, ends, states⟩ := @root_projections { roundLimit := 9 } pathBesideCycle grammar read
  obtain ⟨rfl, reached⟩ := ends study ended
  obtain ⟨projected, gathers⟩ := states study.analysis reached
  have member : ⟨⟨0, "a"⟩, ⟨0, "c"⟩⟩ ∈ snapshot.projections.keys := by simp [keys]
  obtain ⟨source, target, same, _, path⟩ :=
    (projected 0 0 rule snapshot found here).paths _ member
  obtain ⟨rfl, rfl⟩ : "a" = source ∧ "c" = target := by simpa using same
  refine ⟨study, rule, snapshot, gathered, ended, found, here, there, met, path, ?_⟩
  exact (gathers "S" (by simp [known]) 0 gathered there _).mpr
    ⟨0, by simp [own], snapshot, here, member⟩

end Study
end AttributeGrammar
