import AttributeGrammar.Proofs.Analysis.Alike
import AttributeGrammar.Proofs.Analysis.Correspondence
import AttributeGrammar.Proofs.CycleFlag
import AttributeGrammar.Study
import Mathlib

/-! What a round puts on the children of a rule.
Each child gets the relations that its symbol had in the round before, but for those that the rule
declares itself. They are put beside the declared dependencies anew in each round, so none of an earlier
round is left, and the grammar stays as it was read.
-/
namespace AttributeGrammar

namespace Analysis
variable {grammar : Grammar} {analysis : Analysis}

/-! ### The states of a run -/

theorem exists_reached (ready : grammar.Ready) (rounds : Nat) : ∃ analysis,
    Reached grammar analysis ∧
      ∀ number < grammar.rules.length, (analysis.rule number).history.length = rounds := by
  obtain ⟨analysis, went, shows⟩ := exists_rounds ready rounds
  refine ⟨analysis, .between went, fun number below => ?_⟩
  rw [shows.rules number below, Grammar.history_progress, List.length_map, List.length_range]

theorem Reached.rule_eq (ready : grammar.Ready) (reached : Reached grammar analysis) {number : Nat}
    (below : number < grammar.rules.length) :
    analysis.rule number = grammar.progress number (analysis.rule number).history.length := by
  obtain ⟨_, rounds, _, shows⟩ := reached.shows ready
  rw [shows.rules number below, Grammar.history_progress, List.length_map, List.length_range]

theorem Reached.grown (ready : grammar.Ready) (reached : Reached grammar analysis) :
    ∃ round before, grammar.ShowsRounds round before ∧ Grown grammar before analysis := by
  cases reached with
  | between rounds =>
    refine ⟨_, analysis, rounds_shows ready rounds, fun name _ => ?_, fun number _ => ?_⟩
    · exact ⟨[], by simp, (List.append_nil _).symm⟩
    · exact ⟨[], by simp, (List.append_nil _).symm⟩
  | within rounds split nonterminals numbers rules =>
    have begun := rounds_shows ready rounds
    exact ⟨_, _, begun, (During.opened split nonterminals numbers rules).grown ready begun⟩

/-- A rule that was played in a round was played after all nonterminals had got their snapshots of the
round before. -/
theorem Reached.history_before (ready : grammar.Ready) (reached : Reached grammar analysis)
    {number round : Nat} (below : number < grammar.rules.length)
    (played : round + 1 < (analysis.rule number).history.length) {name : String}
    (defined : grammar.Defines name) :
    (analysis.history name)[round]? = some (grammar.snapshot round name) := by
  obtain ⟨current, before, begun, grown⟩ := reached.grown ready
  obtain ⟨openedRule, oneRule, historyRule⟩ := grown.rules number below
  obtain ⟨opened, _, history⟩ := grown.nonterminals name defined
  have earlier : round < current := by
    rw [historyRule, begun.rules number below, Grammar.history_progress, List.length_append,
      List.length_map, List.length_range] at played
    omega
  rw [history, begun.nonterminals name (ready.mem_keys_iff.mpr defined),
    List.getElem?_append_left (by simpa using earlier), Grammar.snapshots,
    Sequence.getElem?_map_range_iff]
  exact ⟨earlier, rfl⟩

/-! ### What the children get -/

/-- The edge joins attributes of a child that is the left side of some rule, and the symbol of the child
had it as a relation in the round before. -/
def FromChild (grammar : Grammar) (analysis : Analysis) (rule : Rule) (round : Nat) (edge : Edge) :
    Prop :=
  ∃ (place : Nat) (child : Symbol) (source target : String), 1 ≤ place ∧
    rule.symbols[place]? = some child ∧ grammar.Defines child.name ∧
    edge = ⟨⟨place, source⟩, ⟨place, target⟩⟩ ∧ 1 ≤ round ∧ ∃ previous : NonterminalRound,
      (analysis.history child.name)[round - 1]? = some previous ∧
        ⟨⟨0, source⟩, ⟨0, target⟩⟩ ∈ previous.relations.keys

private theorem Reached.related_iff (ready : grammar.Ready) (reached : Reached grammar analysis)
    {number round : Nat} (below : number < grammar.rules.length)
    (played : round < (analysis.rule number).history.length) {name source target : String}
    (defined : grammar.Defines name) :
    (grammar.family round).Related name source target ↔ 1 ≤ round ∧ ∃ previous : NonterminalRound,
      (analysis.history name)[round - 1]? = some previous ∧
        ⟨⟨0, source⟩, ⟨0, target⟩⟩ ∈ previous.relations.keys := by
  cases round with
  | zero => simp [Family.Related, Grammar.family]
  | succ round =>
    have here := reached.history_before ready below played defined
    simp [here, Family.Related, Grammar.snapshot]

theorem Reached.mem_redecorated (ready : grammar.Ready) (reached : Reached grammar analysis)
    {number round : Nat} {rule : Rule} (found : grammar.rules[number]? = some rule)
    (played : round < (analysis.rule number).history.length) {edge : Edge} :
    edge ∈ (grammar.ruleSnapshot round number).redecorated.keys ↔
      FromChild grammar analysis rule round edge ∧ edge ∉ rule.declared.map Prod.fst := by
  have below := (List.getElem?_eq_some_iff.mp found).1
  rw [Grammar.mem_keys_redecorated ready found]
  constructor
  · rintro ⟨place, child, source, target, right, here, defined, related, rfl, absent⟩
    obtain ⟨later, previous, before, member⟩ :=
      (reached.related_iff ready below played defined).mp related
    exact ⟨⟨place, child, source, target, right, here, defined, rfl, later, previous, before, member⟩,
      absent⟩
  · rintro ⟨⟨place, child, source, target, right, here, defined, rfl, before⟩, absent⟩
    exact ⟨place, child, source, target, right, here, defined,
      (reached.related_iff ready below played defined).mpr before, rfl, absent⟩

end Analysis

/-! ### Where the redecorated dependencies are kept -/

namespace Analysis
variable {grammar : Grammar} {analysis : Analysis}

/-- What is put on an attribute of a child: the relations of its symbol that lead from the attribute of
that name, in their order, but for those that the child declares. -/
def placed (child : Symbol) (place : Nat) (name : String) (relations : List Dependency) :
    List Dependency :=
  (relations.map fun relation => relation.redecorated place).filter fun moved =>
    moved.source == ⟨place, name⟩ && (child.attributes.get? name).all fun data =>
      !data.dependencies.contains moved.1

private theorem filter_redecorateChild {child : Symbol} {place : Nat}
    {relations moved : List Dependency}
    (put : redecorateChild child place relations = (moved, none)) (name : String) :
    (moved.filter fun d => d.source == ⟨place, name⟩) = placed child place name relations := by
  induction relations generalizing moved with
  | nil =>
    obtain ⟨rfl, _⟩ := Prod.mk.inj put
    rfl
  | cons relation rest ih =>
    have source : (relation.redecorated place).source = ⟨place, relation.1.source.name⟩ := rfl
    have first : placed child place name (relation :: rest) =
        if relation.1.source.name = name ∧ ((child.attributes.get? name).all fun data =>
            !data.dependencies.contains (relation.redecorated place).1) = true then
          relation.redecorated place :: placed child place name rest
        else placed child place name rest := by
      simp only [placed, List.map_cons, List.filter_cons, source, Bool.and_eq_true, beq_iff_eq,
        Coordinate.mk.injEq, true_and]
    rw [first]
    unfold redecorateChild at put
    split at put
    · cases put
    · next data found =>
      dsimp only at put
      split at put
      · next declared =>
        rw [ih put, if_neg]
        rintro ⟨rfl, free⟩
        simp [found, declared] at free
      · next free =>
        obtain ⟨rfl, calm⟩ := Prod.mk.inj put
        rw [List.filter_cons, ih (Prod.ext rfl calm)]
        by_cases same : relation.1.source.name = name
        · subst same
          simp [source, found, free]
        · simp [source, same]

/-- The children other than the one at the place of an attribute put nothing on it. -/
theorem filter_redecorateChild_elsewhere {child : Symbol} {place : Nat}
    {relations moved : List Dependency}
    (put : redecorateChild child place relations = (moved, none)) {c : Coordinate}
    (elsewhere : c.symbolIndex ≠ place) : (moved.filter fun d => d.source == c) = [] := by
  rw [List.filter_eq_nil_iff]
  intro d member same
  have inside : d.1 ∈ (redecorateChild child place relations).1.map Prod.fst :=
    List.mem_map_of_mem (by rwa [put])
  exact elsewhere (beq_iff_eq.mp same ▸ Grammar.source_of_mem_redecorateChild inside)

/-- What is put on an attribute, by the symbol at its place: what a child had in the round before, and
nothing for the other symbols. -/
def Places (grammar : Grammar) (analysis : Analysis) (round : Nat) (symbol : Symbol) (place : Nat)
    (name : String) (put : List Dependency) : Prop :=
  (isChild grammar symbol = true → ∃ previous,
    previousRound symbol.name (analysis.history symbol.name) round = .ok previous ∧
      put = placed symbol place name previous.relations.entries) ∧
  (isChild grammar symbol = false → put = [])

/-- A symbol is passed over, unless it is a child, which comes before those behind it. -/
private theorem redecorate_cons {round place : Nat} {symbol : Symbol} {rest : List (Symbol × Nat)}
    {moved : List Dependency}
    (put : redecorate grammar round analysis ((symbol, place) :: rest) = (moved, none)) :
    (isChild grammar symbol = false ∧ redecorate grammar round analysis rest = (moved, none)) ∨
    isChild grammar symbol = true ∧ ∃ previous mine behind,
      previousRound symbol.name (analysis.history symbol.name) round = .ok previous ∧
      redecorateChild symbol place previous.relations.entries = (mine, none) ∧
      redecorate grammar round analysis rest = (behind, none) ∧ moved = mine ++ behind := by
  unfold redecorate at put
  split at put
  · next takesPart =>
    split at put
    · cases put
    · next previous before =>
      split at put
      · cases put
      · next mine done =>
        obtain ⟨rfl, calm⟩ := Prod.mk.inj put
        exact Or.inr ⟨takesPart, previous, mine, _, before, done, Prod.ext rfl calm, rfl⟩
  · next idle => exact Or.inl ⟨Bool.eq_false_iff.mpr idle, put⟩

private theorem filter_redecorate_elsewhere {round : Nat} {items : List (Symbol × Nat)}
    {moved : List Dependency} (put : redecorate grammar round analysis items = (moved, none))
    {c : Coordinate} (elsewhere : ∀ item ∈ items, c.symbolIndex ≠ item.2) :
    (moved.filter fun d => d.source == c) = [] := by
  induction items generalizing moved with
  | nil =>
    obtain ⟨rfl, _⟩ := Prod.mk.inj put
    rfl
  | cons item rest ih =>
    obtain ⟨first, others⟩ := List.forall_mem_cons.mp elsewhere
    rcases redecorate_cons put with ⟨_, later⟩ | ⟨_, _, _, _, _, done, later, rfl⟩
    · exact ih later others
    · rw [List.filter_append, filter_redecorateChild_elsewhere done first, ih later others]
      rfl

private theorem places_redecorate {round : Nat} {items : List (Symbol × Nat)}
    {moved : List Dependency} (put : redecorate grammar round analysis items = (moved, none))
    (distinct : (items.map Prod.snd).Nodup) {symbol : Symbol} {place : Nat}
    (member : (symbol, place) ∈ items) (name : String) :
    Places grammar analysis round symbol place name
      (moved.filter fun d => d.source == ⟨place, name⟩) := by
  induction items generalizing moved with
  | nil => cases member
  | cons item rest ih =>
    rw [List.map_cons, List.nodup_cons] at distinct
    obtain ⟨apart, distinct⟩ := distinct
    have other {here : Symbol × Nat} (there : here ∈ rest) : (here.2 : Int) ≠ item.2 := fun same =>
      apart (List.mem_map.mpr ⟨here, there, Int.ofNat.inj same⟩)
    rcases List.mem_cons.mp member with rfl | member
    · have bare {behind : List Dependency}
          (later : redecorate grammar round analysis rest = (behind, none)) :
          (behind.filter fun d => d.source == ⟨place, name⟩) = [] :=
        filter_redecorate_elsewhere later fun here there same => other there same.symm
      rcases redecorate_cons put with ⟨idle, later⟩ |
        ⟨takesPart, previous, mine, behind, before, done, later, rfl⟩
      · exact ⟨fun takesPart => absurd takesPart (by simp [idle]), fun _ => bare later⟩
      · rw [List.filter_append, filter_redecorateChild done, bare later, List.append_nil]
        exact ⟨fun _ => ⟨previous, before, rfl⟩, fun idle => absurd takesPart (by simp [idle])⟩
    · rcases redecorate_cons put with ⟨_, later⟩ | ⟨_, _, _, _, _, done, later, rfl⟩
      · exact ih later distinct member
      · rw [List.filter_append, filter_redecorateChild_elsewhere done (other member), List.nil_append]
        exact ih later distinct member

/-- Playing a rule empties the transient dependencies of its attributes and puts on them anew what their
symbols had in the round before; those of the other rules stay. -/
theorem transient_playRule {round number : Nat} {name : String} {rule : Rule} {next : Analysis}
    (found : grammar.rules[number]? = some rule)
    (played : playRule grammar round name number analysis = .done next) :
    (∀ other ≠ number, next.rule other = analysis.rule other) ∧
    (∀ name, (next.rule number).transient ⟨0, name⟩ = []) ∧
    ∀ (place : Nat) (symbol : Symbol), 1 ≤ place → rule.symbols[place]? = some symbol → ∀ name,
      Places grammar analysis round symbol place name ((next.rule number).transient ⟨place, name⟩) := by
  unfold playRule at played
  rw [found] at played
  dsimp only at played
  split at played
  · cases played
  · split at played
    · cases played
    · next calm =>
      have put : redecorate grammar round analysis (rule.symbols.zipIdx.drop 1) = (_, none) :=
        Prod.ext rfl calm
      obtain ⟨history, rules⟩ : ∃ history, ∀ other, next.rule other = if other = number then
          ⟨history, (redecorate grammar round analysis (rule.symbols.zipIdx.drop 1)).1⟩
          else analysis.rule other := by
        rw [← Outcome.ofFault?_done played]
        exact ⟨_, fun other => rule_withRule number other _⟩
      refine ⟨fun other different => by rw [rules, if_neg different], fun name => ?_,
        fun place symbol right here name => ?_⟩
      · rw [rules, if_pos rfl]
        refine filter_redecorate_elsewhere put fun item member same => ?_
        exact Nat.ne_of_lt (Grammar.mem_children.mp member).1 (Int.ofNat.inj same)
      · rw [rules, if_pos rfl]
        refine places_redecorate put ?_ (Grammar.mem_children.mpr ⟨right, here⟩) name
        have places := (Sequence.pairwise_zipIdx rule.symbols).sublist (List.drop_sublist 1 _)
        exact List.pairwise_map.mpr (places.imp Nat.ne_of_lt)

end Analysis

namespace RuleGraph
variable {graph : RuleGraph}

private theorem leaving_spec {c : Coordinate} (holds : graph.rule.Holds c) :
    ∃ data, graph.rule.attributeAt? c = some data ∧
      graph.leaving c = .ok (data.dependencies.entries ++
        graph.redecorated.filter fun d => d.source == c) := by
  obtain ⟨index, name⟩ := c
  obtain ⟨place, symbol, found, rfl, member⟩ := holds
  obtain ⟨data, kept⟩ := OrderedMap.exists_get? member
  have inside : place < graph.rule.symbols.length := (List.getElem?_eq_some_iff.mp found).1
  have stored : graph.rule.attributeAt? ⟨place, name⟩ = some data := by
    simp [Rule.attributeAt?, Sequence.item?_ofNat, found, kept]
  exact ⟨data, stored, by simp [leaving, Sequence.place?_ofNat, inside, stored]⟩

/-- Attribute by attribute, each dependency is met once. -/
theorem perm_flatMap_attributes (sound : graph.Sound)
    (ordered : ∀ symbol ∈ graph.rule.symbols, symbol.attributes.keys.Pairwise (· < ·))
    (distinct : (graph.redecorated.map Prod.fst).Nodup) :
    (graph.attributes.flatMap fun c => graph.redecorated.filter fun d => d.source == c).Perm
      graph.redecorated := by
  -- A dependency is met at its source alone, and its source is an attribute of the rule.
  have each := List.Nodup.of_map _ distinct
  refine (List.perm_ext_iff_of_nodup ?_ each).mpr fun d => ?_
  · refine List.nodup_flatMap.mpr ⟨fun c _ => each.filter _, ?_⟩
    refine (nodup_attributes ordered).imp fun {first second} different d here there => ?_
    have source := beq_iff_eq.mp (List.mem_filter.mp here).2
    have other := beq_iff_eq.mp (List.mem_filter.mp there).2
    exact different (source.symm.trans other)
  · simp only [List.mem_flatMap, List.mem_filter, beq_iff_eq]
    exact ⟨fun ⟨_, _, member, _⟩ => member, fun member =>
      ⟨d.1.source, mem_attributes.mpr (sound.sources d member), member, rfl⟩⟩

end RuleGraph

namespace Study
open Analysis
variable {reading : Reading} {text : List Char} {grammar : Grammar}

private theorem flatten_redecoratedAt (grammar : Grammar) (analysis : Analysis) (number : Nat)
    (rule : Rule) :
    (redecoratedAt ⟨grammar, analysis⟩ number rule).flatten =
      (RuleGraph.mk rule (analysis.rule number).redecorated).attributes.flatMap fun c =>
        (analysis.rule number).redecorated.filter fun d => d.source == c := by
  simp only [redecoratedAt, RuleProgress.transient, RuleGraph.attributes, List.flatMap_assoc,
    List.flatMap_map]
  rw [← List.flatMap_def]

private theorem grammar_analyze (limit : Nat) (study : Study) :
    (study.analyze limit).state.grammar = study.grammar := by
  unfold analyze
  split <;> rfl

/-- After a rule was played in a round, what is redecorated onto its children is just what their symbols
had in the round before, but for what the rule declares itself. Each attribute keeps its part of it
behind the dependencies that it declares, and all parts together hold each dependency once and none of
an earlier round. No analysis changes the grammar. -/
theorem redecorated_from_children
    (read : ofCharacters { reading with analyze := false } text = .ok { grammar := grammar }) :
    (∀ rounds, ∃ analysis, Reached grammar analysis ∧
      ∀ number < grammar.rules.length, (analysis.rule number).history.length = rounds) ∧
    (∀ study, ofCharacters reading text = .ok study →
      study.grammar = grammar ∧ Reached grammar study.analysis) ∧
    (∀ limit analysis, (analyze limit ⟨grammar, analysis⟩).state.grammar = grammar) ∧
    ∀ analysis, Reached grammar analysis →
      ∀ (number round : Nat) (rule : Rule) (snapshot : RuleRound),
        grammar.rules[number]? = some rule →
        (analysis.rule number).history[round]? = some snapshot →
          snapshot.redecorated.keys.Nodup ∧
          (∀ edge, edge ∈ snapshot.redecorated.keys ↔
            FromChild grammar analysis rule round edge ∧ edge ∉ rule.declared.map Prod.fst) ∧
          ((analysis.rule number).history.length = round + 1 →
            (analysis.rule number).redecorated = snapshot.redecorated.entries ∧
            (∀ edge ∈ snapshot.redecorated.keys, rule.Holds edge.source) ∧
            (∀ c, rule.Holds c → ∃ data, rule.attributeAt? c = some data ∧
              (RuleGraph.mk rule (analysis.rule number).redecorated).leaving c =
                .ok (data.dependencies.entries ++
                  snapshot.redecorated.entries.filter fun d => d.1.source == c)) ∧
            (redecoratedAt ⟨grammar, analysis⟩ number rule).flatten.Perm
              snapshot.redecorated.entries) := by
  have parses := parses_of_read read
  have ready := parses.ready
  refine ⟨exists_reached ready, fun study ended => ⟨parses.unique ended, parses.reached ended⟩,
    fun limit analysis => grammar_analyze limit ⟨grammar, analysis⟩, fun analysis reached => ?_⟩
  intro number round rule snapshot found here
  have below := (List.getElem?_eq_some_iff.mp found).1
  have played := (List.getElem?_eq_some_iff.mp here).1
  rw [reached.rule_eq ready below, Grammar.history_progress, Sequence.getElem?_map_range_iff] at here
  obtain ⟨-, rfl⟩ := here
  have sound := ready.sound_graph (ready.within_family round) (List.mem_of_getElem? found)
  have distinct : ((grammar.redecorated (grammar.family round) rule).map Prod.fst).Nodup :=
    Grammar.nodup_redecorated (ready.within_family round) (grammar.nodup_keys_family round)
  have entries : (grammar.ruleSnapshot round number).redecorated.entries =
      grammar.redecorated (grammar.family round) rule := Grammar.redecorated_ruleSnapshot ready found
  refine ⟨?_, fun edge => reached.mem_redecorated ready found played, fun last => ?_⟩
  · rw [OrderedMap.keys, entries]
    exact distinct
  have now : (analysis.rule number).redecorated = grammar.redecorated (grammar.family round) rule := by
    rw [reached.rule_eq ready below, last, Grammar.progress, found, Option.elim_some]
  rw [flatten_redecoratedAt, now, OrderedMap.keys, entries]
  refine ⟨rfl, fun edge member => ?_, fun c => @RuleGraph.leaving_spec ⟨rule, _⟩ c, ?_⟩
  · obtain ⟨d, put, rfl⟩ := List.mem_map.mp member
    exact sound.sources d put
  · exact RuleGraph.perm_flatMap_attributes sound (ready.ordered (List.mem_of_getElem? found)) distinct

/-- The first rule declares for one of its children what both have as relation of their symbol. -/
def declaredOnFirst : List Char := "S -> A A : s[1] = i[1]\nA -> a : s[0] = i[0]".toList

theorem redecorated_declaredOnFirst : ∃ study rule snapshot,
    ofCharacters { roundLimit := 9 } declaredOnFirst = .ok study ∧
      study.grammar.rules[0]? = some rule ∧
      (study.analysis.rule 0).history[1]? = some snapshot ∧
      snapshot.redecorated.keys = [⟨⟨2, "i"⟩, ⟨2, "s"⟩⟩] ∧
      FromChild study.grammar study.analysis rule 1 ⟨⟨2, "i"⟩, ⟨2, "s"⟩⟩ ∧
      (study.analysis.rule 0).redecorated = snapshot.redecorated.entries := by
  have read : ∃ grammar, ofCharacters { roundLimit := 9, analyze := false } declaredOnFirst =
      .ok { grammar := grammar } := ⟨_, by cbv⟩
  have ended : ∃ study rule snapshot,
      ofCharacters { roundLimit := 9 } declaredOnFirst = .ok study ∧
        study.grammar.rules[0]? = some rule ∧
        (study.analysis.rule 0).history[1]? = some snapshot ∧
        (study.analysis.rule 0).history.length = 2 ∧
        snapshot.redecorated.keys = [⟨⟨2, "i"⟩, ⟨2, "s"⟩⟩] :=
    ⟨_, _, _, by cbv, by cbv, by cbv, by cbv, by cbv⟩
  obtain ⟨grammar, read⟩ := read
  obtain ⟨study, rule, snapshot, ended, found, here, last, keys⟩ := ended
  obtain ⟨_, ends, _, states⟩ :=
    @redecorated_from_children { roundLimit := 9 } declaredOnFirst grammar read
  obtain ⟨rfl, reached⟩ := ends study ended
  obtain ⟨_, edges, transient⟩ := states study.analysis reached 0 1 rule snapshot found here
  refine ⟨study, rule, snapshot, ended, found, here, keys, ((edges _).mp ?_).1, (transient last).1⟩
  rw [keys]
  exact List.mem_singleton_self _

end Study
end AttributeGrammar
