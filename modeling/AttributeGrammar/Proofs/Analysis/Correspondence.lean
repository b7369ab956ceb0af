import AttributeGrammar.Proofs.Verdict
import Mathlib

/-! Grammars that differ in the order of their rules and edges alone.
What a search meets first depends on that order, and so does what it finds where there is a cycle. But
which relations there are does not, and without a cycle every round finds all of those that it can.
-/
namespace AttributeGrammar
open Relation (TransGen)

namespace Rule

/-- The same symbols with the same attributes and edges, in whatever order. -/
structure Corresponds (left right : Rule) : Prop where
  names : left.symbolNames = right.symbolNames
  holds : ∀ c, left.Holds c ↔ right.Holds c
  edges : ∀ edge, edge ∈ left.declared.map Prod.fst ↔ edge ∈ right.declared.map Prod.fst

variable {left right : Rule}

theorem Corresponds.symm (same : left.Corresponds right) : right.Corresponds left :=
  ⟨same.names.symm, fun c => (same.holds c).symm, fun edge => (same.edges edge).symm⟩

theorem Corresponds.leftName?_eq (same : left.Corresponds right) :
    left.leftName? = right.leftName? :=
  Grammar.leftName?_of_names same.names

theorem Corresponds.symbol (same : left.Corresponds right) {place : Nat} {symbol : Symbol}
    (found : left.symbols[place]? = some symbol) :
    ∃ other, right.symbols[place]? = some other ∧ other.name = symbol.name := by
  have named := congrArg (·[place]?) same.names
  simp only [symbolNames, List.getElem?_map, found, Option.map_some] at named
  simpa [eq_comm] using named

end Rule

namespace Grammar

/-- Every rule of each grammar has one in the other that corresponds to it. -/
structure Corresponds (grammar other : Grammar) : Prop where
  forth : ∀ rule ∈ grammar.rules, ∃ counterpart ∈ other.rules, rule.Corresponds counterpart
  back : ∀ rule ∈ other.rules, ∃ counterpart ∈ grammar.rules, rule.Corresponds counterpart

variable {grammar other : Grammar} {left right : Rule}

theorem Corresponds.symm (same : grammar.Corresponds other) : other.Corresponds grammar :=
  ⟨same.back, same.forth⟩

theorem Corresponds.defines (same : grammar.Corresponds other) {name : String}
    (defined : grammar.Defines name) : other.Defines name := by
  obtain ⟨rule, kept, named⟩ := defined
  obtain ⟨counterpart, present, corresponds⟩ := same.forth rule kept
  exact ⟨counterpart, present, corresponds.leftName?_eq ▸ named⟩

theorem Corresponds.defines_iff (same : grammar.Corresponds other) {name : String} :
    grammar.Defines name ↔ other.Defines name :=
  ⟨same.defines, same.symm.defines⟩

private theorem Corresponds.joins (same : grammar.Corresponds other) (rules : left.Corresponds right)
    (related : NameRelations) : left.Joins grammar related ≤ right.Joins other related := by
  intro source target edge
  cases edge with
  | @declared d member =>
    have declared := (rules.edges d.1).mp (List.mem_map_of_mem member)
    obtain ⟨counterpart, present, edge⟩ := List.mem_map.mp declared
    rw [← edge]
    exact .declared present
  | child least found defined relates =>
    obtain ⟨symbol, there, name⟩ := rules.symbol found
    exact .child least there (name ▸ same.defines defined) (name ▸ relates)

private theorem Corresponds.path_iff (same : grammar.Corresponds other) (rules : left.Corresponds right)
    (related : NameRelations) {source target : Coordinate} :
    TransGen (left.Joins grammar related) source target ↔
      TransGen (right.Joins other related) source target :=
  ⟨TransGen.mono (same.joins rules related) _ _, TransGen.mono (same.symm.joins rules.symm related) _ _⟩

private theorem Corresponds.project_le (same : grammar.Corresponds other) (related : NameRelations) :
    grammar.project related ≤ other.project related := by
  rintro name source target ⟨rule, kept, named, path⟩
  obtain ⟨counterpart, present, rules⟩ := same.forth rule kept
  exact ⟨counterpart, present, rules.leftName?_eq ▸ named, (same.path_iff rules related).mp path⟩

private theorem Corresponds.project_eq (same : grammar.Corresponds other) :
    grammar.project = other.project :=
  OrderHom.ext _ _ (funext fun related =>
    le_antisymm (same.project_le related) (same.symm.project_le related))

theorem Corresponds.cyclic (same : grammar.Corresponds other) (cyclic : grammar.Cyclic) :
    other.Cyclic := by
  obtain ⟨rule, kept, c, cycle⟩ := cyclic
  obtain ⟨counterpart, present, rules⟩ := same.forth rule kept
  refine ⟨counterpart, present, c, ?_⟩
  rw [leastRelations, ← same.project_eq]
  exact (same.path_iff rules grammar.leastRelations).mp cycle

theorem Corresponds.cyclic_iff (same : grammar.Corresponds other) :
    grammar.Cyclic ↔ other.Cyclic :=
  ⟨same.cyclic, same.symm.cyclic⟩

/-! ### The rounds of grammars without a cycle -/

section
variable (ready : grammar.Ready) (readyOther : other.Ready)
include ready readyOther

private theorem Corresponds.related_eq (same : grammar.Corresponds other) (acyclic : ¬ grammar.Cyclic)
    (round : Nat) : (grammar.family round).Related = (other.family round).Related := by
  have acyclicOther : ¬ other.Cyclic := fun cyclic => acyclic (same.symm.cyclic cyclic)
  rw [related_family_eq ready fun earlier _ => quiet_of_not_cyclic ready acyclic earlier,
    related_family_eq readyOther fun earlier _ => quiet_of_not_cyclic readyOther acyclicOther earlier,
    same.project_eq]

private theorem Corresponds.sameKeys_family (same : grammar.Corresponds other)
    (acyclic : ¬ grammar.Cyclic) (round : Nat) (name : String) :
    (grammar.family round name).sameKeys (other.family round name) = true := by
  rw [OrderedMap.sameKeys_iff]
  intro edge
  rw [mem_keys_family ready, mem_keys_family readyOther,
    same.related_eq ready readyOther acyclic]

private theorem Corresponds.stableRound_eq (same : grammar.Corresponds other)
    (acyclic : ¬ grammar.Cyclic)
    (round : Nat) : grammar.stableRound round = other.stableRound round := by
  have edges (round : Nat) (name : String) (edge : Edge) :
      edge ∈ (grammar.family round name).keys ↔ edge ∈ (other.family round name).keys :=
    OrderedMap.sameKeys_iff.mp (same.sameKeys_family ready readyOther acyclic round name) edge
  have snapshots (name : String) :
      (grammar.snapshot round name).stable = (other.snapshot round name).stable := by
    rw [Bool.eq_iff_iff]
    simp only [snapshot, Bool.and_eq_true, OrderedMap.sameKeys_iff, edges]
  rw [Bool.eq_iff_iff, stableRound, stableRound, List.all_eq_true, List.all_eq_true]
  simp only [snapshots, ready.mem_keys_iff, readyOther.mem_keys_iff, same.defines_iff]

end

/-- Which edges a rule gets in a round, whether or not there are cycles. -/
theorem mem_keys_redecorated (ready : grammar.Ready) {round number : Nat} {rule : Rule}
    (found : grammar.rules[number]? = some rule) {edge : Edge} :
    edge ∈ (grammar.ruleSnapshot round number).redecorated.keys ↔
      ∃ (place : Nat) (child : Symbol) (source target : String), 1 ≤ place ∧
        rule.symbols[place]? = some child ∧ grammar.Defines child.name ∧
        (grammar.family round).Related child.name source target ∧
        edge = ⟨⟨place, source⟩, ⟨place, target⟩⟩ ∧ edge ∉ rule.declared.map Prod.fst := by
  have kept := List.mem_of_getElem? found
  have within := ready.within_family round
  have keys : edge ∈ (grammar.ruleSnapshot round number).redecorated.keys ↔
      ∃ d ∈ grammar.redecorated (grammar.family round) rule, d.1 = edge := by
    rw [OrderedMap.keys, redecorated_ruleSnapshot ready found, List.mem_map]
  rw [keys]
  constructor
  · rintro ⟨d, member, rfl⟩
    obtain ⟨place, child, least, symbol, defined, relation, present, rfl, absent⟩ :=
      (mem_redecorated ready within kept).mp member
    obtain ⟨source, target, moved, related⟩ :=
      (mem_keys_family ready).mp (OrderedMap.mem_keys_of_mem present)
    refine ⟨place, child, source, target, least, symbol, defined, related, ?_, absent⟩
    simp [Dependency.redecorated, moved, Edge.movedTo]
  · rintro ⟨place, child, source, target, least, symbol, defined, related, rfl, absent⟩
    obtain ⟨positions, present⟩ := OrderedMap.exists_of_mem_keys related
    exact ⟨_, (mem_redecorated ready within kept).mpr
      ⟨place, child, least, symbol, defined, _, present, rfl, absent⟩, rfl⟩

/-- Which root projections a rule gives in a round that meets no cycle. -/
theorem mem_keys_projections (ready : grammar.Ready) {round number : Nat} {rule : Rule}
    (found : grammar.rules[number]? = some rule) (quiet : grammar.Quiet round) {edge : Edge} :
    edge ∈ (grammar.ruleSnapshot round number).projections.keys ↔
      edge.source.symbolIndex = 0 ∧ edge.target.symbolIndex = 0 ∧
        TransGen (rule.Joins grammar (grammar.family round).Related) edge.source edge.target := by
  have kept := List.mem_of_getElem? found
  have within := ready.within_family round
  have sound := ready.sound_graph within kept
  rw [mem_projections_ruleSnapshot, projections, found, Option.elim_some,
    ← path_graph ready within kept]
  constructor
  · intro member
    obtain ⟨source, target, rfl, _, path⟩ := RuleGraph.path_of_projection sound member
    exact ⟨rfl, rfl, path⟩
  · rintro ⟨sourceAtRoot, targetAtRoot, path⟩
    obtain ⟨⟨_, source⟩, ⟨_, target⟩⟩ := edge
    obtain rfl : _ = (0 : Int) := sourceAtRoot
    obtain rfl : _ = (0 : Int) := targetAtRoot
    exact RuleGraph.projection_of_path sound
      (fun cycle => quiet ⟨rule, kept, _, (path_graph ready within kept).mp cycle⟩) path

section
variable (ready : grammar.Ready) (readyOther : other.Ready) {number otherNumber : Nat}
include ready readyOther

private theorem Corresponds.redecorates (same : grammar.Corresponds other) (acyclic : ¬ grammar.Cyclic)
    (rules : left.Corresponds right) (found : grammar.rules[number]? = some left)
    (foundOther : other.rules[otherNumber]? = some right) {round : Nat} {edge : Edge}
    (member : edge ∈ (grammar.ruleSnapshot round number).redecorated.keys) :
    edge ∈ (other.ruleSnapshot round otherNumber).redecorated.keys := by
  obtain ⟨place, child, source, target, least, here, defined, relates, rfl, absent⟩ :=
    (mem_keys_redecorated ready found).mp member
  obtain ⟨counterpart, there, name⟩ := rules.symbol here
  rw [same.related_eq ready readyOther acyclic, ← name] at relates
  exact (mem_keys_redecorated readyOther foundOther).mpr ⟨place, counterpart, source, target, least,
    there, name ▸ same.defines defined, relates, rfl,
    fun declared => absent ((rules.edges _).mpr declared)⟩

/-- Corresponding rules get the same edges and give the same projections. -/
theorem Corresponds.sameKeys_ruleSnapshot (same : grammar.Corresponds other)
    (acyclic : ¬ grammar.Cyclic) (rules : left.Corresponds right)
    (found : grammar.rules[number]? = some left)
    (foundOther : other.rules[otherNumber]? = some right) (round : Nat) :
    (grammar.ruleSnapshot round number).projections.sameKeys
        (other.ruleSnapshot round otherNumber).projections = true ∧
      (grammar.ruleSnapshot round number).redecorated.sameKeys
        (other.ruleSnapshot round otherNumber).redecorated = true := by
  have acyclicOther : ¬ other.Cyclic := fun cyclic => acyclic (same.symm.cyclic cyclic)
  rw [OrderedMap.sameKeys_iff, OrderedMap.sameKeys_iff]
  refine ⟨fun edge => ?_, fun edge => ⟨?_, ?_⟩⟩
  · rw [mem_keys_projections ready found (quiet_of_not_cyclic ready acyclic round),
      mem_keys_projections readyOther foundOther (quiet_of_not_cyclic readyOther acyclicOther round),
      same.related_eq ready readyOther acyclic, same.path_iff rules]
  · exact same.redecorates ready readyOther acyclic rules found foundOther
  · exact same.symm.redecorates readyOther ready acyclicOther rules.symm foundOther found

/-- What so many rounds recorded of a nonterminal and of corresponding rules, round by round. -/
theorem Corresponds.sameKeys_history (same : grammar.Corresponds other) (acyclic : ¬ grammar.Cyclic)
    {rounds : Nat} {analysis otherAnalysis : Analysis} (shows : grammar.ShowsRounds rounds analysis)
    (showsOther : other.ShowsRounds rounds otherAnalysis) {name : String}
    (defined : grammar.Defines name) :
    List.Forall₂ (fun left right => left.relations.sameKeys right.relations = true)
      (analysis.history name) (otherAnalysis.history name) := by
  rw [shows.nonterminals name (ready.mem_keys_iff.mpr defined),
    showsOther.nonterminals name (readyOther.mem_keys_iff.mpr (same.defines defined)),
    snapshots, snapshots, List.forall₂_map_left_iff, List.forall₂_map_right_iff, List.forall₂_same]
  exact fun round _ => same.sameKeys_family ready readyOther acyclic (round + 1) name

theorem Corresponds.sameKeys_ruleHistory (same : grammar.Corresponds other)
    (acyclic : ¬ grammar.Cyclic) {rounds : Nat} {analysis otherAnalysis : Analysis}
    (shows : grammar.ShowsRounds rounds analysis)
    (showsOther : other.ShowsRounds rounds otherAnalysis) (rules : left.Corresponds right)
    (found : grammar.rules[number]? = some left)
    (foundOther : other.rules[otherNumber]? = some right) :
    List.Forall₂ (fun left right => left.projections.sameKeys right.projections = true ∧
        left.redecorated.sameKeys right.redecorated = true)
      (analysis.rule number).history (otherAnalysis.rule otherNumber).history := by
  rw [shows.rules number (List.getElem?_eq_some_iff.mp found).1,
    showsOther.rules otherNumber (List.getElem?_eq_some_iff.mp foundOther).1, history_progress,
    history_progress, List.forall₂_map_left_iff, List.forall₂_map_right_iff, List.forall₂_same]
  exact fun round _ =>
    same.sameKeys_ruleSnapshot ready readyOther acyclic rules found foundOther round

end

theorem acyclic_of_run (ready : grammar.Ready) {limit : Nat} {analysis : Analysis}
    (went : Analysis.run limit grammar {} = .done analysis) :
    analysis.acyclic = true ↔ ¬ grammar.Cyclic := by
  rcases Analysis.run_cases ready limit with ⟨_, final, _, stable, _, done, shows⟩ | ⟨_, _, stopped, _⟩
  · obtain rfl := Outcome.done.inj (went.symm.trans done)
    exact acyclic_iff_of_stable ready stable shows
  · cases went.symm.trans stopped

/-- Without a cycle the analyses of both grammars end, and after the same number of rounds. -/
theorem Corresponds.run_done (same : grammar.Corresponds other) (ready : grammar.Ready)
    (readyOther : other.Ready) (acyclic : ¬ grammar.Cyclic) {limit : Nat} {analysis : Analysis}
    (went : Analysis.run limit grammar {} = .done analysis) : ∃ rounds otherAnalysis,
      Analysis.run limit other {} = .done otherAnalysis ∧ grammar.ShowsRounds rounds analysis ∧
        other.ShowsRounds rounds otherAnalysis := by
  have stableRound := same.stableRound_eq ready readyOther acyclic
  rcases Analysis.run_cases ready limit with
    ⟨last, final, less, stable, first, done, shows⟩ | ⟨_, _, stopped, _⟩
  swap
  · cases went.symm.trans stopped
  obtain rfl := Outcome.done.inj (went.symm.trans done)
  rcases Analysis.run_cases readyOther limit with
    ⟨otherLast, otherAnalysis, _, stableOther, firstOther, doneOther, showsOther⟩ |
    ⟨_, unstable, _, _⟩
  · have equal : last = otherLast := by
      apply Nat.le_antisymm
      · by_contra early
        rw [← stableRound, first otherLast (by omega)] at stableOther
        cases stableOther
      · by_contra late
        rw [stableRound, firstOther last (by omega)] at stable
        cases stable
    exact ⟨last + 1, otherAnalysis, doneOther, shows, equal ▸ showsOther⟩
  · rw [stableRound, unstable last less] at stable
    cases stable

end Grammar
end AttributeGrammar
