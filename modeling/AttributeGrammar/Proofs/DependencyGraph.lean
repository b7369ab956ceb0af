import AttributeGrammar.DependencyGraph.Dot
import AttributeGrammar.Proofs.Coherence
import AttributeGrammar.Proofs.Uniformity
import Mathlib

/-! What the dependency graph of a rule tells about the rule.
An id begins with the index of a symbol. The name of an attribute may have digits and underscores of its
own, but the index ends at the first underscore, so the id tells both. Nodes are then told apart, and an
edge tells which dependency it shows. How its line is drawn tells the kind of the dependency.
-/
namespace AttributeGrammar

namespace DependencyGraph
variable {title : String} {rule : Rule} {snapshot? : Option RuleRound}

/-! ### Ids -/

def indexOf (id : String) : Nat :=
  Nat.ofDigitChars 10 ((id.toList.drop 1).takeWhile Char.isDigit) 0

/-- The attribute that an id names; the id of a symbol names none. -/
def coordinate? (id : String) : Option Coordinate :=
  match (id.toList.drop 1).dropWhile Char.isDigit with
  | '_' :: name => some ⟨indexOf id, String.ofList name⟩
  | _ => none

private theorem toList_symbolId (place : Nat) :
    (symbolId place).toList = 's' :: Nat.toDigits 10 place := by
  have index : (toString (place : Int)).toList = Nat.toDigits 10 place := Nat.toList_repr
  rw [symbolId, String.toList_append, index]
  rfl

/-- Where the digits end, the index ends. -/
theorem split_index {id : String} {place : Nat} {rest : List Char}
    (written : id.toList = 's' :: (Nat.toDigits 10 place ++ rest))
    (stops : ∀ c ∈ rest.head?, c.isDigit = false) :
    indexOf id = place ∧ (id.toList.drop 1).dropWhile Char.isDigit = rest := by
  have digits : ∀ c ∈ Nat.toDigits 10 place, c.isDigit = true := fun _ member =>
    Nat.isDigit_of_mem_toDigits (by decide) (by decide) member
  obtain ⟨index, behind⟩ := takeWhile_split digits stops
  rw [indexOf, written]
  exact ⟨by rw [List.drop_one, List.tail_cons, index, Nat.ofDigitChars_ten_toDigits], behind⟩

private theorem read_symbolId (place : Nat) :
    indexOf (symbolId place) = place ∧ coordinate? (symbolId place) = none := by
  have written : (symbolId place).toList = 's' :: (Nat.toDigits 10 place ++ []) := by
    rw [List.append_nil, toList_symbolId]
  obtain ⟨index, behind⟩ := split_index written (by simp)
  exact ⟨index, by rw [coordinate?, behind]⟩

private theorem read_attributeId (place : Nat) (name : String) :
    indexOf (attributeId ⟨place, name⟩) = place ∧
      coordinate? (attributeId ⟨place, name⟩) = some ⟨place, name⟩ := by
  have written : (attributeId ⟨place, name⟩).toList =
      's' :: (Nat.toDigits 10 place ++ '_' :: name.toList) := by
    simp [attributeId, toList_symbolId]
  obtain ⟨index, behind⟩ := split_index written (by simp)
  refine ⟨index, ?_⟩
  rw [coordinate?, behind]
  simp [index]

private theorem coordinate?_of_holds {c : Coordinate} (holds : rule.Holds c) :
    coordinate? (attributeId c) = some c := by
  obtain ⟨_, name⟩ := c
  obtain ⟨place, _, _, rfl, _⟩ := holds
  exact (read_attributeId place name).2

/-! ### Nodes -/

private theorem mem_cluster {symbol : Symbol} {place : Nat} {node : GraphNode} :
    node ∈ (cluster symbol place).nodes ↔ node = ⟨symbolId place, symbol.name, .symbol⟩ ∨
      ∃ entry ∈ symbol.attributes.entries,
        node = ⟨attributeId ⟨place, entry.1⟩, entry.1, .ofAttribute entry.2.indirect⟩ := by
  simp [cluster, eq_comm]

private theorem indexOf_of_mem_cluster {symbol : Symbol} {place : Nat} {id : String}
    (member : id ∈ (cluster symbol place).nodes.map GraphNode.id) : indexOf id = place := by
  obtain ⟨node, present, rfl⟩ := List.mem_map.mp member
  rcases mem_cluster.mp present with rfl | ⟨entry, _, rfl⟩
  · exact (read_symbolId place).1
  · exact (read_attributeId place entry.1).1

private theorem nodup_cluster {symbol : Symbol} (place : Nat)
    (distinct : symbol.attributes.keys.Nodup) :
    ((cluster symbol place).nodes.map GraphNode.id).Nodup := by
  have ids : (cluster symbol place).nodes.map GraphNode.id = symbolId place ::
      symbol.attributes.keys.map fun name => attributeId ⟨place, name⟩ := by
    simp [cluster, OrderedMap.keys]
  rw [ids, List.nodup_cons]
  constructor
  · intro member
    obtain ⟨name, _, same⟩ := List.mem_map.mp member
    have unnamed := (read_symbolId place).2
    rw [← same, (read_attributeId place name).2] at unnamed
    cases unnamed
  · refine distinct.map fun first second same => ?_
    have read := congrArg coordinate? same
    rw [(read_attributeId place first).2, (read_attributeId place second).2] at read
    exact congrArg Coordinate.name (Option.some.inj read)

private theorem nodes_ofRule : (ofRule title rule snapshot?).nodes =
    rule.symbols.zipIdx.flatMap fun item => (cluster item.1 item.2).nodes := by
  rw [nodes, ofRule, List.flatMap_map]

private theorem mem_nodes {node : GraphNode} : node ∈ (ofRule title rule snapshot?).nodes ↔
    ∃ (place : Nat) (symbol : Symbol), rule.symbols[place]? = some symbol ∧
      node ∈ (cluster symbol place).nodes := by
  simp only [nodes_ofRule, List.mem_flatMap, Prod.exists, List.mem_zipIdx_iff_getElem?]
  exact exists_comm

private theorem nodup_nodes (sound : rule.Sound) :
    ((ofRule title rule snapshot?).nodes.map GraphNode.id).Nodup := by
  rw [nodes_ofRule, List.map_flatMap, List.nodup_flatMap]
  constructor
  · rintro ⟨symbol, place⟩ member
    have found := List.mem_zipIdx_iff_getElem?.mp member
    exact nodup_cluster place (sound.placed place symbol found).distinct
  -- The ids of different symbols begin with different indexes.
  · refine (Sequence.pairwise_zipIdx rule.symbols).imp fun {earlier later} before id here there => ?_
    rw [← indexOf_of_mem_cluster here, ← indexOf_of_mem_cluster there] at before
    exact lt_irrefl _ before

private theorem length_nodes : (ofRule title rule snapshot?).nodes.length = rule.elementCount := by
  have sizes : (rule.symbols.zipIdx.map fun item => (cluster item.1 item.2).nodes.length) =
      rule.symbols.map fun symbol => symbol.attributes.size + 1 := by
    conv_rhs => rw [← List.zipIdx_map_fst 0 rule.symbols, List.map_map]
    refine List.map_congr_left fun item _ => ?_
    simp [cluster, OrderedMap.size]
  rw [nodes_ofRule, List.length_flatMap, sizes, List.sum_map_add, rule.elementCount_eq]
  simp [Nat.add_comm]

private theorem mem_ids {c : Coordinate} (holds : rule.Holds c) :
    attributeId c ∈ (ofRule title rule snapshot?).nodes.map GraphNode.id := by
  obtain ⟨_, name⟩ := c
  obtain ⟨place, symbol, found, rfl, member⟩ := holds
  obtain ⟨data, kept⟩ := OrderedMap.exists_of_mem_keys member
  exact List.mem_map.mpr
    ⟨_, mem_nodes.mpr ⟨place, symbol, found, mem_cluster.mpr (Or.inr ⟨_, kept, rfl⟩)⟩, rfl⟩

/-! ### Edges -/

/-- The dependencies that the graph of a rule shows as edges of a kind. -/
def shown (rule : Rule) (snapshot? : Option RuleRound) : EdgeKind → List Dependency
  | .declared => rule.declared
  | .redecorated => snapshot?.elim [] fun snapshot => snapshot.redecorated.entries
  | .projected => snapshot?.elim [] fun snapshot => snapshot.projections.entries

private theorem edges_ofRule : (ofRule title rule snapshot?).edges =
    [EdgeKind.declared, .redecorated, .projected].flatMap fun kind =>
      edgesOf kind (shown rule snapshot? kind) := by
  cases snapshot? with
  | none => simp [ofRule, shown, edgesOf]
  | some snapshot => simp [ofRule, shown, roundEdges]

theorem mem_edges {edge : GraphEdge} : edge ∈ (ofRule title rule snapshot?).edges ↔
    ∃ d ∈ shown rule snapshot? edge.kind,
      edge = ⟨attributeId d.1.source, attributeId d.1.target, edge.kind⟩ := by
  simp only [edges_ofRule, List.mem_flatMap, edgesOf, List.mem_map]
  constructor
  · rintro ⟨kind, _, d, member, rfl⟩
    exact ⟨d, member, rfl⟩
  · rintro ⟨d, member, same⟩
    refine ⟨edge.kind, ?_, d, member, same.symm⟩
    cases edge.kind <;> simp

private theorem filter_edges (kind : EdgeKind) :
    (ofRule title rule snapshot?).edges.filter (fun edge => edge.kind = kind) =
      edgesOf kind (shown rule snapshot? kind) := by
  have each (other : EdgeKind) (dependencies : List Dependency) :
      (edgesOf other dependencies).filter (fun edge => edge.kind = kind) =
        if other = kind then edgesOf kind dependencies else [] := by
    rw [edgesOf, List.filter_map]
    by_cases same : other = kind
    · subst same
      simp [edgesOf, Function.comp_def]
    · simp [same, Function.comp_def]
  simp only [edges_ofRule, List.filter_flatMap, each]
  cases kind <;> simp

def ends? (edge : GraphEdge) : Option Coordinate × Option Coordinate :=
  (coordinate? edge.source, coordinate? edge.target)

/-- The rule has the ends of the dependencies, no dependency of a kind comes twice, and none is
redecorated that the rule declares. -/
structure Fits (rule : Rule) (dependencies : EdgeKind → List Dependency) : Prop where
  ends : ∀ kind, ∀ d ∈ dependencies kind, rule.Holds d.1.source ∧ rule.Holds d.1.target
  once : ∀ kind, ((dependencies kind).map Prod.fst).Nodup
  apart : ∀ d ∈ dependencies .redecorated, d.1 ∉ (dependencies .declared).map Prod.fst

variable (fits : Fits rule (shown rule snapshot?))
include fits

private theorem ends?_edgesOf (kind : EdgeKind) :
    (edgesOf kind (shown rule snapshot? kind)).map ends? =
      (shown rule snapshot? kind).map fun d => (some d.1.source, some d.1.target) := by
  rw [edgesOf, List.map_map]
  refine List.map_congr_left fun d member => ?_
  exact Prod.ext (coordinate?_of_holds (fits.ends kind d member).1)
    (coordinate?_of_holds (fits.ends kind d member).2)

theorem nodup_edges : (ofRule title rule snapshot?).edges.Nodup := by
  rw [edges_ofRule, List.nodup_flatMap]
  constructor
  · intro kind _
    apply List.Nodup.of_map ends?
    have edges : ((shown rule snapshot? kind).map fun d => (some d.1.source, some d.1.target)) =
        ((shown rule snapshot? kind).map Prod.fst).map fun edge =>
          (some edge.source, some edge.target) := by
      rw [List.map_map]
      rfl
    rw [ends?_edgesOf fits kind, edges]
    refine (fits.once kind).map fun first second same => ?_
    obtain ⟨source, target⟩ := Prod.mk.inj same
    cases first
    cases second
    rw [Edge.mk.injEq]
    exact ⟨Option.some.inj source, Option.some.inj target⟩
  · refine List.Pairwise.imp (R := fun left right => left ≠ right) ?_ (by decide)
    intro left right different edge here there
    obtain ⟨_, _, rfl⟩ := List.mem_map.mp here
    obtain ⟨_, _, same⟩ := List.mem_map.mp there
    exact different (congrArg GraphEdge.kind same).symm

private theorem read_edge {edge : GraphEdge} (member : edge ∈ (ofRule title rule snapshot?).edges) :
    ∃ d ∈ shown rule snapshot? edge.kind, ends? edge = (some d.1.source, some d.1.target) := by
  obtain ⟨d, kept, same⟩ := mem_edges.mp member
  refine ⟨d, kept, ?_⟩
  rw [same]
  exact Prod.ext (coordinate?_of_holds (fits.ends _ d kept).1)
    (coordinate?_of_holds (fits.ends _ d kept).2)

private theorem ends_ne {edge other : GraphEdge} (member : edge ∈ (ofRule title rule snapshot?).edges)
    (there : other ∈ (ofRule title rule snapshot?).edges) (redecorated : edge.kind = .redecorated)
    (declared : other.kind = .declared) : (edge.source, edge.target) ≠ (other.source, other.target) := by
  intro same
  obtain ⟨d, kept, ends⟩ := read_edge fits member
  obtain ⟨further, present, otherEnds⟩ := read_edge fits there
  have read : ends? edge = ends? other := congrArg (Prod.map coordinate? coordinate?) same
  rw [ends, otherEnds] at read
  obtain ⟨source, target⟩ := Prod.mk.inj read
  have edges : further.1 = d.1 := by
    rw [Edge.mk.injEq]
    exact ⟨(Option.some.inj source).symm, (Option.some.inj target).symm⟩
  rw [redecorated] at kept
  rw [declared] at present
  exact fits.apart d kept (edges ▸ List.mem_map_of_mem present)

omit fits

/-- The style of the line tells the kind of an edge. -/
theorem lineStyle_eq_iff {kind : EdgeKind} : (Dot.lineStyle kind = "solid" ↔ kind = .declared) ∧
    (Dot.lineStyle kind = "dashed" ↔ kind = .redecorated) ∧
    (Dot.lineStyle kind = "dotted" ↔ kind = .projected) := by
  cases kind <;> decide

/-- The graph shows the rule, and the round that left the snapshot: its nodes are the symbols and their
attributes, told apart by their ids, and its edges of each kind are the dependencies of that kind, which
are drawn solid if they are declared, dashed if they are redecorated and dotted if they are projected. -/
structure Depicts (rule : Rule) (snapshot? : Option RuleRound) (graph : DependencyGraph) : Prop where
  distinct : (graph.nodes.map GraphNode.id).Nodup
  nodes : ∀ node, node ∈ graph.nodes ↔
    ∃ (place : Nat) (symbol : Symbol), rule.symbols[place]? = some symbol ∧
      (node = ⟨symbolId place, symbol.name, .symbol⟩ ∨ ∃ entry ∈ symbol.attributes.entries,
        node = ⟨attributeId ⟨place, entry.1⟩, entry.1, .ofAttribute entry.2.indirect⟩)
  names : ∀ node ∈ graph.nodes, ∀ c, coordinate? node.id = some c ↔
    node.kind ≠ .symbol ∧ node.id = attributeId c ∧ rule.Holds c
  count : graph.nodes.length = rule.elementCount
  edges : ∀ kind, (graph.edges.filter fun edge => edge.kind = kind).map ends? =
    (shown rule snapshot? kind).map fun d => (some d.1.source, some d.1.target)
  solid : (graph.edges.filter fun edge => Dot.lineStyle edge.kind = "solid").map ends? =
    rule.declared.map fun d => (some d.1.source, some d.1.target)
  dashed : (graph.edges.filter fun edge => Dot.lineStyle edge.kind = "dashed").map ends? =
    (shown rule snapshot? .redecorated).map fun d => (some d.1.source, some d.1.target)
  dotted : (graph.edges.filter fun edge => Dot.lineStyle edge.kind = "dotted").map ends? =
    (shown rule snapshot? .projected).map fun d => (some d.1.source, some d.1.target)
  drawn : ∀ edge ∈ graph.edges, Dot.lineStyle edge.kind ∈ ["solid", "dashed", "dotted"]
  once : graph.edges.Nodup
  created : ∀ edge ∈ graph.edges,
    edge.source ∈ graph.nodes.map GraphNode.id ∧ edge.target ∈ graph.nodes.map GraphNode.id
  apart : ∀ edge ∈ graph.edges, ∀ other ∈ graph.edges, edge.kind = .redecorated →
    other.kind = .declared → (edge.source, edge.target) ≠ (other.source, other.target)

private theorem coordinate?_of_mem {node : GraphNode}
    (member : node ∈ (ofRule title rule snapshot?).nodes)
    (c : Coordinate) : coordinate? node.id = some c ↔
      node.kind ≠ .symbol ∧ node.id = attributeId c ∧ rule.Holds c := by
  obtain ⟨place, symbol, found, inside⟩ := mem_nodes.mp member
  rcases mem_cluster.mp inside with rfl | ⟨entry, kept, rfl⟩
  · simp [(read_symbolId place).2]
  · have read := (read_attributeId place entry.1).2
    constructor
    · intro same
      obtain rfl := Option.some.inj (read.symm.trans same)
      exact ⟨nofun, rfl, place, symbol, found, rfl, OrderedMap.mem_keys_of_mem kept⟩
    · rintro ⟨_, same, holds⟩
      rw [same, coordinate?_of_holds holds]

private theorem depicts_ofRule (title : String) (sound : rule.Sound)
    (fits : Fits rule (shown rule snapshot?)) :
    Depicts rule snapshot? (ofRule title rule snapshot?) := by
  have kinds (kind : EdgeKind) :
      ((ofRule title rule snapshot?).edges.filter fun edge => edge.kind = kind).map ends? =
        (shown rule snapshot? kind).map fun d => (some d.1.source, some d.1.target) := by
    rw [filter_edges, ends?_edgesOf fits]
  constructor
  · exact nodup_nodes sound
  · intro node
    simp only [mem_nodes, mem_cluster]
  · exact fun node member => coordinate?_of_mem member
  · exact length_nodes
  · exact kinds
  · simp only [lineStyle_eq_iff.1, kinds]
    rfl
  · simp only [lineStyle_eq_iff.2.1, kinds]
  · simp only [lineStyle_eq_iff.2.2, kinds]
  · intro edge _
    rw [List.mem_cons, List.mem_pair, lineStyle_eq_iff.1, lineStyle_eq_iff.2.1, lineStyle_eq_iff.2.2]
    cases edge.kind <;> simp
  · exact nodup_edges fits
  · intro edge member
    obtain ⟨d, kept, same⟩ := mem_edges.mp member
    obtain ⟨source, target⟩ := fits.ends _ d kept
    rw [same]
    exact ⟨mem_ids source, mem_ids target⟩
  · exact fun edge member other there => ends_ne fits member there

end DependencyGraph

/-! ### The graphs of a study -/

namespace Grammar
open DependencyGraph
variable {grammar : Grammar} {rule : Rule} {number : Nat}

private theorem fits_none (sound : rule.Sound) (once : (rule.declared.map Prod.fst).Nodup) :
    Fits rule (shown rule none) := by
  refine ⟨fun kind d member => ?_, fun kind => ?_, nofun⟩
  · cases kind with
    | declared => exact ⟨sound.holds_source member, sound.targets d member⟩
    | redecorated => cases member
    | projected => cases member
  · cases kind with
    | declared => exact once
    | redecorated => exact List.nodup_nil
    | projected => exact List.nodup_nil

private theorem fits_ruleSnapshot (ready : grammar.Ready) (found : grammar.rules[number]? = some rule)
    (once : (rule.declared.map Prod.fst).Nodup) (round : Nat) :
    Fits rule (shown rule (some (grammar.ruleSnapshot round number))) := by
  have kept := List.mem_of_getElem? found
  have sound := ready.sound rule kept
  obtain ⟨redecorated, projected⟩ := resolves_ruleSnapshot ready found round
  obtain ⟨onceProjected, onceRedecorated⟩ := grammar.nodup_ruleSnapshot round number
  refine ⟨fun kind d member => ?_, fun kind => ?_, fun d member => ?_⟩
  · cases kind with
    | declared => exact ⟨sound.holds_source member, sound.targets d member⟩
    | redecorated => exact (redecorated d member).holds
    | projected => exact (projected d member).holds
  · cases kind with
    | declared => exact once
    | redecorated => exact onceRedecorated
    | projected => exact onceProjected
  · change d ∈ (grammar.ruleSnapshot round number).redecorated.entries at member
    rw [redecorated_ruleSnapshot ready found] at member
    obtain ⟨_, _, _, _, _, _, _, _, absent⟩ :=
      (mem_redecorated ready (ready.within_family round) kept).mp member
    exact absent

end Grammar

namespace Study
open DependencyGraph
variable {reading : Reading} {text : List Char} {study : Study} {number : Nat} {rule : Rule}

/-- The declared edges of a rule that was read are distinct, and its elements are counted. -/
theorem rule_of_read (ended : ofCharacters reading text = .ok study)
    (found : study.grammar.rules[number]? = some rule) :
    (rule.declared.map Prod.fst).Nodup ∧
      study.grammar.elementCounts[number]? = some rule.elementCount := by
  obtain ⟨grammar, parses⟩ := exists_grammar (not_reaches_of_ok ended)
  obtain rfl : study.grammar = grammar := parses.unique ended
  rcases parses.origin with ⟨_, empty⟩ | ⟨_, draft, drafts⟩
  · rw [empty] at found
    cases found
  · have reconciled := drafts.reconciledTo
    obtain ⟨old, present, _⟩ := Sequence.before_of_getElem?
      (Grammar.completedTo_reconcile reconciled.resolved) found
    obtain ⟨_, there, rules⟩ := reconciled.rule present
    obtain rfl := Option.some.inj (found.symm.trans there)
    refine ⟨rules.sound.nodup_edges_of_completed rules.direct rules.completed, ?_⟩
    rw [reconciled.elementCounts, List.getElem?_map, found]
    rfl

private theorem exists_dependencyGraph (ended : ofCharacters reading text = .ok study)
    (found : study.grammar.rules[number]? = some rule) {round? : Option Int}
    {snapshot? : Option RuleRound} (taken : study.snapshot? number number round? = .ok snapshot?)
    (fits : Fits rule (shown rule snapshot?)) :
    ∃ graph, study.dependencyGraph number round? = .ok graph ∧ Depicts rule snapshot? graph ∧
      study.grammar.elementCounts[number]? = some graph.nodes.length := by
  have kept := List.mem_of_getElem? found
  have inside := (List.getElem?_eq_some_iff.mp found).1
  obtain ⟨ready, _⟩ := shows_of_ok ended
  obtain ⟨written, shows⟩ := ready.exists_text kept
  have depicts := depicts_ofRule (roundTitle written round?) (ready.sound rule kept) fits
  refine ⟨_, ?_, depicts, ?_⟩
  · simp only [dependencyGraph, Sequence.place?_ofNat, if_pos inside, found, taken, shows]
    rfl
  · rw [depicts.count]
    exact (rule_of_read ended found).2

/-- Every rule of a text that was read has a graph, on its own and in every round, and each shows the
rule: its nodes have different ids and are as many as the elements that are counted, and its edges are
the declared dependencies and, in a round, the redecorated relations and the root projections. -/
theorem dependencyGraph_depicts (ended : ofCharacters reading text = .ok study)
    (found : study.grammar.rules[number]? = some rule) :
    (∃ graph, study.dependencyGraph number none = .ok graph ∧ Depicts rule none graph ∧
      study.grammar.elementCounts[number]? = some graph.nodes.length) ∧
    ∀ round < study.analysis.stability.roundCount, ∃ snapshot graph,
      (study.analysis.rule number).history[round]? = some snapshot ∧
      study.dependencyGraph number (some (round : Int)) = .ok graph ∧
      Depicts rule (some snapshot) graph ∧
      study.grammar.elementCounts[number]? = some graph.nodes.length := by
  have below := (List.getElem?_eq_some_iff.mp found).1
  obtain ⟨ready, rounds, shows, _⟩ := shows_of_ok ended
  obtain ⟨once, _⟩ := rule_of_read ended found
  constructor
  · have sound := ready.sound rule (List.mem_of_getElem? found)
    exact exists_dependencyGraph ended found rfl (Grammar.fits_none sound once)
  · intro round early
    rw [Stability.roundCount, shows.marks, List.length_map, List.length_range] at early
    have recorded : (study.analysis.rule number).history[round]? =
        some (study.grammar.ruleSnapshot round number) := by
      rw [shows.rules number below, Grammar.history_progress, Sequence.getElem?_map_range_iff]
      exact ⟨early, rfl⟩
    have taken : study.snapshot? number number (some (round : Int)) =
        .ok (some (study.grammar.ruleSnapshot round number)) := by
      have positive : ¬ (round : Int) < 0 := by omega
      simp only [snapshot?, if_neg positive, Int.toNat_natCast, recorded]
    obtain ⟨graph, made, facts⟩ := exists_dependencyGraph ended found taken
      (Grammar.fits_ruleSnapshot ready found once round)
    exact ⟨_, graph, recorded, made, facts⟩

/-- Names with digits and underscores, at the symbols 1 and 11. -/
def namesLikeIndexes : List Char :=
  "S -> A b b b b b b b b b A : 1[0] = 1_1[1]; 1[1] = 2[0]\nA -> a : 1_1[0] = 1[0]".toList

theorem dependencyGraph_depicts_namesLikeIndexes : ∃ study rule snapshot graph,
    ofCharacters { roundLimit := 4 } namesLikeIndexes = .ok study ∧
      study.grammar.rules[0]? = some rule ∧ study.dependencyGraph 0 (some 1) = .ok graph ∧
      Depicts rule (some snapshot) graph ∧ graph.nodes.length = 18 ∧
      (shown rule (some snapshot) .redecorated).map (fun d => attributeId d.1.target) =
        ["s1_1_1", "s11_1_1"] := by
  have ended : ∃ study rule snapshot, ofCharacters { roundLimit := 4 } namesLikeIndexes = .ok study ∧
      study.grammar.rules[0]? = some rule ∧ (study.analysis.rule 0).history[1]? = some snapshot ∧
      study.analysis.stability.roundCount = 3 ∧ study.grammar.elementCounts[0]? = some 18 ∧
      (shown rule (some snapshot) .redecorated).map (fun d => attributeId d.1.target) =
        ["s1_1_1", "s11_1_1"] :=
    ⟨_, _, _, by cbv, by cbv, by cbv, by cbv, by cbv, by cbv⟩
  obtain ⟨study, rule, snapshot, ended, found, recorded, rounds, counted, targets⟩ := ended
  obtain ⟨same, graph, there, made, depicts, nodes⟩ :=
    (dependencyGraph_depicts ended found).2 1 (by omega)
  obtain rfl := Option.some.inj (recorded.symm.trans there)
  exact ⟨study, rule, snapshot, graph, ended, found, made, depicts,
    Option.some.inj (nodes.symm.trans counted), targets⟩

end Study
end AttributeGrammar
