import AttributeGrammar.Proofs.Analysis.Run
import AttributeGrammar.Proofs.Dependency
import Mathlib.Data.List.Sort

/-! Graphs that lead from every attribute along the same edges in the same order.
Their searches go through the same steps, whatever the places of the attributes are and whichever other
attributes there are, so they find the same edges and the same cycles in the same order.
-/
namespace AttributeGrammar

namespace Rule

/-- The declared edges that start from an attribute, in the order in which they are kept. -/
def edgesFrom (rule : Rule) (c : Coordinate) : List Edge :=
  (rule.declared.filter fun d => d.1.source = c).map Prod.fst

/-- The same symbols with the same edges; there may be other attributes without edges. -/
structure Alike (left right : Rule) : Prop where
  names : left.symbolNames = right.symbolNames
  edges : ∀ c, left.edgesFrom c = right.edgesFrom c

variable {left middle right : Rule}

theorem Alike.symm (alike : left.Alike right) : right.Alike left :=
  ⟨alike.names.symm, fun c => (alike.edges c).symm⟩

theorem Alike.trans (first : left.Alike middle) (second : middle.Alike right) : left.Alike right :=
  ⟨first.names.trans second.names, fun c => (first.edges c).trans (second.edges c)⟩

theorem mem_edgesFrom {rule : Rule} {edge : Edge} {c : Coordinate} :
    edge ∈ rule.edgesFrom c ↔ edge ∈ rule.declared.map Prod.fst ∧ edge.source = c := by
  simp only [edgesFrom, List.mem_map, List.mem_filter, decide_eq_true_eq]
  constructor
  · rintro ⟨d, ⟨member, source⟩, rfl⟩
    exact ⟨⟨d, member, rfl⟩, source⟩
  · rintro ⟨⟨d, member, rfl⟩, source⟩
    exact ⟨d, ⟨member, source⟩, rfl⟩

theorem Alike.mem_declared_iff (alike : left.Alike right) {edge : Edge} :
    edge ∈ left.declared.map Prod.fst ↔ edge ∈ right.declared.map Prod.fst := by
  have same : edge ∈ left.edgesFrom edge.source ↔ edge ∈ right.edgesFrom edge.source := by
    rw [alike.edges]
  simpa [mem_edgesFrom] using same

end Rule

namespace RuleGraph

def edgesFrom (graph : RuleGraph) (c : Coordinate) : List Edge :=
  (graph.dependencies.filter fun d => d.1.source = c).map Prod.fst

/-- From every attribute both lead along the same edges in the same order. -/
def Alike (left right : RuleGraph) : Prop := ∀ c, left.edgesFrom c = right.edgesFrom c

end RuleGraph

structure Search.Alike (left right : Search) : Prop where
  stack : left.stack.map Prod.fst = right.stack.map Prod.fst
  visited : left.visited = right.visited
  parents : left.parents = right.parents
  projections : left.projections.map Prod.fst = right.projections.map Prod.fst

namespace RuleGraph
variable {graph left right : RuleGraph} {start : Coordinate} {search other : Search}

private theorem map_projectionsTo (left right : RuleGraph) (parents : List (Coordinate × Coordinate))
    (target : Coordinate) : (left.projectionsTo parents target).map Prod.fst =
      (right.projectionsTo parents target).map Prod.fst := by
  unfold projectionsTo
  split
  · simp only [List.map_map]
    rfl
  · rfl

private theorem length_dependencies (alike : left.Alike right) :
    left.dependencies.length = right.dependencies.length := by
  have counted (graph : RuleGraph) (edge : Edge) :
      (graph.edgesFrom edge.source).count edge = (graph.dependencies.map Prod.fst).count edge := by
    have selected : graph.edgesFrom edge.source =
        (graph.dependencies.map Prod.fst).filter fun other => other.source = edge.source := by
      rw [List.filter_map]
      rfl
    rw [selected, List.count_filter (by simp)]
  have perm : (left.dependencies.map Prod.fst).Perm (right.dependencies.map Prod.fst) := by
    rw [List.perm_iff_count]
    intro edge
    rw [← counted, ← counted, alike]
  simpa using perm.length_eq

def Stacks (graph : RuleGraph) (search : Search) : Prop := ∀ d ∈ search.stack, d ∈ graph.dependencies

theorem Stacks.step (sound : graph.Sound) (stacked : graph.Stacks search) (start : Coordinate) :
    graph.Stacks (graph.step start search).1 := by
  cases top : search.stack with
  | nil => simpa [RuleGraph.step, top] using stacked
  | cons d rest =>
    have later : ∀ d ∈ rest, d ∈ graph.dependencies := fun d below => stacked d (by simp [top, below])
    rcases step_of_top sound start top (stacked d (by simp [top])) with
      ⟨_, went⟩ | ⟨_, _, went⟩ | ⟨_, _, went⟩
    · rw [went]
      exact later
    · rw [went]
      exact later
    · rw [went]
      intro other present
      rcases List.mem_append.mp present with new | old
      · exact (mem_dependenciesFrom.mp (List.mem_reverse.mp new)).1
      · exact later other old

/-- One step takes two searches from the same point to the same point. -/
theorem step_alike (soundLeft : left.Sound) (soundRight : right.Sound) (alike : left.Alike right)
    (stacksLeft : left.Stacks search) (stacksRight : right.Stacks other)
    (same : search.Alike other) (start : Coordinate) :
    (left.step start search).1.Alike (right.step start other).1 ∧
      (left.step start search).2 = (right.step start other).2 := by
  cases top : search.stack with
  | nil =>
    have empty : other.stack = [] := by simpa [top] using same.stack.symm
    simp only [step, top, empty]
    exact ⟨same, trivial⟩
  | cons d rest =>
    have edges := same.stack
    rw [top, List.map_cons] at edges
    obtain ⟨⟨edge, positions⟩, later, above, here, rests⟩ := List.map_eq_cons_iff.mp edges.symm
    obtain rfl : edge = d.1 := here
    have leavingLeft := leaving_of_holds soundLeft
      (soundLeft.holds_target (stacksLeft d (by simp [top])))
    have leavingRight := leaving_of_holds soundRight
      (soundRight.holds_target (stacksRight (d.1, positions) (by simp [above])))
    simp only [step, top, above, Dependency.target, Dependency.source, ← same.visited,
      ← same.parents, leavingLeft, leavingRight]
    split
    · exact ⟨⟨rests.symm, rfl, rfl, same.projections⟩, rfl⟩
    · split
      · exact ⟨⟨rests.symm, rfl, rfl, same.projections⟩, rfl⟩
      · have pushed : (left.dependenciesFrom d.1.target).map Prod.fst =
            (right.dependenciesFrom d.1.target).map Prod.fst := alike d.1.target
        refine ⟨⟨?_, rfl, rfl, ?_⟩, rfl⟩
        · simp only [List.map_append, List.map_reverse, pushed, rests]
        · simp only [List.map_append, same.projections, map_projectionsTo left right]

private theorem searchFrom_alike (soundLeft : left.Sound) (soundRight : right.Sound)
    (alike : left.Alike right) (limit : Nat) (stacksLeft : left.Stacks search)
    (stacksRight : right.Stacks other) (same : search.Alike other) :
    (left.searchFrom start limit search).1.Alike (right.searchFrom start limit other).1 ∧
      (left.searchFrom start limit search).2 = (right.searchFrom start limit other).2 := by
  induction limit generalizing search other with
  | zero => exact ⟨same, rfl⟩
  | succ limit ih =>
    obtain ⟨reached, ended⟩ := step_alike soundLeft soundRight alike stacksLeft stacksRight same start
    have nextLeft := stacksLeft.step soundLeft start
    have nextRight := stacksRight.step soundRight start
    rw [searchFrom, searchFrom]
    cases stepLeft : left.step start search with
    | mk search ending =>
    cases stepRight : right.step start other with
    | mk other otherEnding =>
    rw [stepLeft, stepRight] at reached ended
    rw [stepLeft] at nextLeft
    rw [stepRight] at nextRight
    obtain rfl : ending = otherEnding := ended
    cases ending with
    | none => exact ih nextLeft nextRight reached
    | some ending => exact ⟨reached, rfl⟩

private theorem search_alike (soundLeft : left.Sound) (soundRight : right.Sound)
    (alike : left.Alike right)
    (holdsLeft : left.rule.Holds start) (holdsRight : right.rule.Holds start) :
    (left.search start).1.Alike (right.search start).1 ∧
      (left.search start).2 = (right.search start).2 := by
  rw [search, search, leaving_of_holds soundLeft holdsLeft, leaving_of_holds soundRight holdsRight,
    stepLimit, stepLimit, length_dependencies alike]
  apply searchFrom_alike soundLeft soundRight alike
  · exact fun d member => (mem_dependenciesFrom.mp (List.mem_reverse.mp member)).1
  · exact fun d member => (mem_dependenciesFrom.mp (List.mem_reverse.mp member)).1
  · refine ⟨?_, rfl, rfl, rfl⟩
    rw [List.map_reverse, List.map_reverse]
    exact congrArg List.reverse (alike start)

/-- A search from an attribute that nothing starts from ends at once. -/
theorem search_of_edgesFrom_nil (sound : graph.Sound) (holds : graph.rule.Holds start)
    (idle : graph.edgesFrom start = []) : graph.search start = ({ stack := [] }, .exhausted) := by
  have noEdges : graph.dependenciesFrom start = [] := by
    simpa [edgesFrom, dependenciesFrom] using idle
  rw [search, leaving_of_holds sound holds, noEdges]
  obtain ⟨less, limit⟩ := Nat.exists_eq_add_one_of_ne_zero
    (show graph.stepLimit ≠ 0 by simp [stepLimit])
  simp [limit, searchFrom, step]

private theorem findingsFrom_filter (sound : graph.Sound) {starts : List Coordinate}
    (holds : ∀ start ∈ starts, graph.rule.Holds start) :
    graph.findingsFrom starts =
      graph.findingsFrom (starts.filter fun start => graph.edgesFrom start ≠ []) := by
  induction starts with
  | nil => rfl
  | cons start rest ih =>
    have later := ih fun other member => holds other (List.mem_cons_of_mem _ member)
    by_cases idle : graph.edgesFrom start = []
    · have ended := search_of_edgesFrom_nil sound (holds start List.mem_cons_self) idle
      rw [List.filter_cons_of_neg (by simpa using idle), ← later]
      simp only [findingsFrom, ended, List.nil_append]
    · rw [List.filter_cons_of_pos (by simpa using idle), findingsFrom, findingsFrom, later]

private theorem findingsFrom_alike (soundLeft : left.Sound) (soundRight : right.Sound)
    (alike : left.Alike right) {starts : List Coordinate}
    (holdsLeft : ∀ start ∈ starts, left.rule.Holds start)
    (holdsRight : ∀ start ∈ starts, right.rule.Holds start) :
    (left.findingsFrom starts).projections.map Prod.fst =
        (right.findingsFrom starts).projections.map Prod.fst ∧
      (left.findingsFrom starts).cycleStarts = (right.findingsFrom starts).cycleStarts := by
  induction starts with
  | nil => exact ⟨rfl, rfl⟩
  | cons start rest ih =>
    obtain ⟨projections, cycles⟩ :=
      ih (fun other member => holdsLeft other (List.mem_cons_of_mem _ member))
        fun other member => holdsRight other (List.mem_cons_of_mem _ member)
    obtain ⟨found, ended⟩ := search_alike soundLeft soundRight alike
      (holdsLeft start List.mem_cons_self) (holdsRight start List.mem_cons_self)
    rw [findingsFrom, findingsFrom]
    cases searchLeft : left.search start with
    | mk search ending =>
    cases searchRight : right.search start with
    | mk other otherEnding =>
    rw [searchLeft, searchRight] at found ended
    obtain rfl : ending = otherEnding := ended
    have both : (search.projections ++ (left.findingsFrom rest).projections).map Prod.fst =
        (other.projections ++ (right.findingsFrom rest).projections).map Prod.fst := by
      rw [List.map_append, List.map_append, found.projections, projections]
    cases ending with
    | exhausted => exact ⟨both, cycles⟩
    | cycle => exact ⟨both, by simp only [cycles]⟩
    | blocked => exact ⟨found.projections, rfl⟩

private theorem pairwise_attributes
    (ordered : ∀ symbol ∈ graph.rule.symbols, symbol.attributes.keys.Pairwise (· < ·)) :
    graph.attributes.Pairwise fun earlier later => earlier.key < later.key := by
  rw [attributes, List.pairwise_flatMap]
  constructor
  · rintro ⟨symbol, place⟩ member
    rw [List.pairwise_map]
    refine (ordered symbol (List.fst_mem_of_mem_zipIdx member)).imp fun before => ?_
    simpa [Coordinate.key, Prod.Lex.toLex_lt_toLex] using before
  · refine (Sequence.pairwise_zipIdx graph.rule.symbols).imp fun {earlier later} before => ?_
    intro first here second there
    obtain ⟨_, _, rfl⟩ := List.mem_map.mp here
    obtain ⟨_, _, rfl⟩ := List.mem_map.mp there
    simp only [Coordinate.key, Prod.Lex.toLex_lt_toLex]
    left
    omega

theorem nodup_attributes
    (ordered : ∀ symbol ∈ graph.rule.symbols, symbol.attributes.keys.Pairwise (· < ·)) :
    graph.attributes.Nodup := by
  refine (pairwise_attributes ordered).imp fun before same => ?_
  rw [same] at before
  exact lt_irrefl _ before

private theorem Sound.holds_of_edgesFrom (sound : graph.Sound) (busy : graph.edgesFrom start ≠ []) :
    graph.rule.Holds start := by
  obtain ⟨edge, member⟩ := List.exists_mem_of_ne_nil _ busy
  obtain ⟨d, selected, _⟩ := List.mem_map.mp member
  obtain ⟨kept, source⟩ := List.mem_filter.mp selected
  exact of_decide_eq_true source ▸ sound.holds_source kept

private theorem filter_attributes (soundLeft : left.Sound) (soundRight : right.Sound)
    (alike : left.Alike right)
    (orderedLeft : ∀ symbol ∈ left.rule.symbols, symbol.attributes.keys.Pairwise (· < ·))
    (orderedRight : ∀ symbol ∈ right.rule.symbols, symbol.attributes.keys.Pairwise (· < ·)) :
    (left.attributes.filter fun start => left.edgesFrom start ≠ []) =
      right.attributes.filter fun start => right.edgesFrom start ≠ [] := by
  have first := (pairwise_attributes orderedLeft).filter fun start => left.edgesFrom start ≠ []
  have second := (pairwise_attributes orderedRight).filter fun start => right.edgesFrom start ≠ []
  have distinctLeft := (nodup_attributes orderedLeft).filter fun start => left.edgesFrom start ≠ []
  have distinctRight := (nodup_attributes orderedRight).filter fun start => right.edgesFrom start ≠ []
  have same (start : Coordinate) :
      start ∈ left.attributes.filter (fun start => left.edgesFrom start ≠ []) ↔
        start ∈ right.attributes.filter fun start => right.edgesFrom start ≠ [] := by
    simp only [List.mem_filter, mem_attributes, alike start, decide_eq_true_eq]
    constructor
    · exact fun ⟨_, busy⟩ => ⟨soundRight.holds_of_edgesFrom busy, busy⟩
    · exact fun ⟨_, busy⟩ => ⟨soundLeft.holds_of_edgesFrom (alike start ▸ busy), busy⟩
  exact ((List.perm_ext_iff_of_nodup distinctLeft distinctRight).mpr same).eq_of_pairwise
    (fun _ _ _ _ before after => absurd after before.asymm) first second

/-- Graphs that are alike have the same findings, but for the places of the attributes. -/
theorem findings_alike (soundLeft : left.Sound) (soundRight : right.Sound)
    (alike : left.Alike right)
    (orderedLeft : ∀ symbol ∈ left.rule.symbols, symbol.attributes.keys.Pairwise (· < ·))
    (orderedRight : ∀ symbol ∈ right.rule.symbols, symbol.attributes.keys.Pairwise (· < ·)) :
    left.findings.projections.map Prod.fst = right.findings.projections.map Prod.fst ∧
      left.findings.cycleStarts = right.findings.cycleStarts := by
  have starts := filter_attributes soundLeft soundRight alike orderedLeft orderedRight
  have holdsLeft : ∀ start ∈ left.attributes, left.rule.Holds start :=
    fun _ member => mem_attributes.mp member
  have holdsRight : ∀ start ∈ right.attributes, right.rule.Holds start :=
    fun _ member => mem_attributes.mp member
  obtain ⟨projections, cycles⟩ := findingsFrom_alike soundLeft soundRight alike
    (fun start member => holdsLeft start (List.mem_filter.mp member).1)
    (fun start member => holdsRight start (List.mem_filter.mp (starts ▸ member)).1)
  rw [← findingsFrom_filter soundLeft holdsLeft] at projections cycles
  rw [starts, ← findingsFrom_filter soundRight holdsRight] at projections cycles
  exact ⟨Dependency.map_firsts_congr projections, cycles⟩

end RuleGraph

namespace Grammar
variable {grammar other : Grammar} {rule : Rule}

def rulesOf (grammar : Grammar) (name : String) : List Rule :=
  grammar.rules.filter fun rule => rule.leftName? = some name

theorem map_numbersOf (grammar : Grammar) (name : String) :
    (grammar.numbersOf name).map (grammar.rules[·]?) = (grammar.rulesOf name).map some := by
  have lookups : grammar.rules.map some =
      (List.range grammar.rules.length).map (grammar.rules[·]?) := by
    apply List.ext_getElem
    · simp
    · intro place inside _
      simp
  have selected : (grammar.rulesOf name).map some =
      (grammar.rules.map some).filter fun rule? => rule?.bind Rule.leftName? = some name := by
    rw [List.filter_map]
    rfl
  rw [selected, lookups, List.filter_map]
  rfl

theorem getElem?_rulesOf {name : String} {place number : Nat}
    (listed : (grammar.numbersOf name)[place]? = some number) :
    ∃ rule, grammar.rules[number]? = some rule ∧ (grammar.rulesOf name)[place]? = some rule := by
  have same := congrArg (·[place]?) (map_numbersOf grammar name)
  simp only [List.getElem?_map, listed, Option.map_some] at same
  obtain ⟨rule, found, here⟩ := Option.map_eq_some_iff.mp same.symm
  exact ⟨rule, here.symm, found⟩

private theorem map_redecorateChild {child : Symbol} {place : Nat} {declared : List Edge}
    {relations : List Dependency} (named : ∀ d ∈ relations, d.1.source.name ∈ child.attributes.keys)
    (declares : ∀ relation ∈ relations, (∀ data,
      child.attributes.get? relation.1.source.name = some data →
        (Dependency.redecorated relation place).1 ∉ data.dependencies.keys) ↔
      relation.1.movedTo place ∉ declared) :
    (Analysis.redecorateChild child place relations).1.map Prod.fst =
      ((relations.map Prod.fst).map (·.movedTo place)).filter (· ∉ declared) := by
  induction relations with
  | nil => rfl
  | cons relation rest ih =>
    have later := ih (fun d member => named d (List.mem_cons_of_mem _ member))
      fun d member => declares d (List.mem_cons_of_mem _ member)
    obtain ⟨data, found⟩ := OrderedMap.exists_get? (named relation List.mem_cons_self)
    have here := declares relation List.mem_cons_self
    simp only [found, Option.some.injEq, forall_eq'] at here
    simp only [Analysis.redecorateChild, found, List.map_cons]
    split
    · next present =>
      have kept : ¬ relation.1.movedTo place ∉ declared :=
        fun absent => here.mpr absent (OrderedMap.contains_iff.mp present)
      rw [List.filter_cons_of_neg (by simpa using kept), later]
    · next absent =>
      have fresh : relation.1.movedTo place ∉ declared :=
        here.mp fun present => absent (OrderedMap.contains_iff.mpr present)
      rw [List.filter_cons_of_pos (by simpa using fresh), List.map_cons, later]
      rfl

/-- Which edges a round puts on the children of a rule, and in which order. -/
theorem map_redecorated (ready : grammar.Ready) (kept : rule ∈ grammar.rules) (round : Nat) :
    (grammar.redecorated (grammar.family round) rule).map Prod.fst =
      (rule.symbolNames.zipIdx.drop 1).flatMap fun child =>
        ((grammar.family round child.1).keys.map (·.movedTo child.2)).filter
          (· ∉ rule.declared.map Prod.fst) := by
  have names : rule.symbolNames.zipIdx.drop 1 =
      (rule.symbols.zipIdx.drop 1).map fun child => (child.1.name, child.2) := by
    rw [Rule.symbolNames, List.zipIdx_map, List.map_drop]
    rfl
  rw [names, List.flatMap_map, redecorated, List.map_flatMap]
  refine List.flatMap_congr fun child member => ?_
  obtain ⟨_, found⟩ := mem_children.mp member
  have within := ready.within_family round
  split
  · exact map_redecorateChild (ready.names_child within kept found) fun relation present =>
      ready.declares_redecorated_iff within kept found present
  · next taken =>
    have undefined : ¬ grammar.Defines child.1.name := fun defined =>
      taken (ready.isChild_iff.mpr defined)
    rw [family_of_not_defined undefined]
    rfl

private theorem mem_rulesOf {name : String} :
    rule ∈ grammar.rulesOf name ↔ rule ∈ grammar.rules ∧ rule.leftName? = some name := by
  simp [rulesOf]

private theorem flatMap_numbersOf (grammar : Grammar) (family : Family) (name : String) :
    (grammar.numbersOf name).flatMap (grammar.projections family) =
      (grammar.rulesOf name).flatMap fun rule => (grammar.graph family rule).findings.projections := by
  have looked : (grammar.numbersOf name).flatMap (grammar.projections family) =
      ((grammar.numbersOf name).map (grammar.rules[·]?)).flatMap fun rule? =>
        rule?.elim [] fun rule => (grammar.graph family rule).findings.projections := by
    rw [List.flatMap_map]
    rfl
  rw [looked, map_numbersOf, List.flatMap_map]
  rfl

theorem Ready.ordered (ready : grammar.Ready) (kept : rule ∈ grammar.rules) :
    ∀ symbol ∈ rule.symbols, symbol.attributes.keys.Pairwise (· < ·) := by
  intro symbol member
  obtain ⟨place, found⟩ := List.mem_iff_getElem?.mp member
  have distinct := ((ready.sound rule kept).placed place symbol found).distinct
  have ascending : symbol.attributes.keys.Pairwise fun a b => Text.inOrder a b = true := by
    rw [ready.keys_of_getElem? kept found]
    exact pairwise_sorted _
  refine ascending.imp₂ (fun {a b} before other => ?_) distinct
  exact lt_of_le_of_ne (of_decide_eq_true before) other

/-- A set of symbols of which each has rules alike in both grammars, about symbols of the set. -/
structure Shares (grammar other : Grammar) (shared : String → Prop) : Prop where
  alike : ∀ name, shared name →
    List.Forall₂ Rule.Alike (grammar.rulesOf name) (other.rulesOf name)
  closed : ∀ name, shared name → ∀ rule ∈ grammar.rulesOf name,
    ∀ child ∈ rule.symbolNames.drop 1, shared child

def AgreeOn (shared : String → Prop) (family other : Family) : Prop :=
  ∀ name, shared name → (family name).keys = (other name).keys

variable {shared : String → Prop}

theorem Shares.redecorated (shares : grammar.Shares other shared) (readyLeft : grammar.Ready)
    (readyRight : other.Ready) {round : Nat}
    (agree : AgreeOn shared (grammar.family round) (other.family round)) {name : String}
    (member : shared name) {left right : Rule} (keptLeft : left ∈ grammar.rulesOf name)
    (keptRight : right ∈ other.rulesOf name) (alike : left.Alike right) :
    (grammar.redecorated (grammar.family round) left).map Prod.fst =
      (other.redecorated (other.family round) right).map Prod.fst := by
  rw [map_redecorated readyLeft (mem_rulesOf.mp keptLeft).1,
    map_redecorated readyRight (mem_rulesOf.mp keptRight).1, ← alike.names]
  refine List.flatMap_congr fun child present => ?_
  have named : child.1 ∈ left.symbolNames.drop 1 := by
    have occurs := List.mem_map_of_mem (f := Prod.fst) present
    rwa [List.map_drop, List.zipIdx_map_fst] at occurs
  rw [agree child.1 (shares.closed name member left keptLeft child.1 named)]
  simp only [alike.mem_declared_iff]

theorem Shares.findings (shares : grammar.Shares other shared) (readyLeft : grammar.Ready)
    (readyRight : other.Ready) {round : Nat}
    (agree : AgreeOn shared (grammar.family round) (other.family round)) {name : String}
    (member : shared name) {left right : Rule} (keptLeft : left ∈ grammar.rulesOf name)
    (keptRight : right ∈ other.rulesOf name) (alike : left.Alike right) :
    (grammar.graph (grammar.family round) left).findings.projections.map Prod.fst =
        (other.graph (other.family round) right).findings.projections.map Prod.fst ∧
      (grammar.graph (grammar.family round) left).findings.cycleStarts =
        (other.graph (other.family round) right).findings.cycleStarts := by
  obtain ⟨inLeft, _⟩ := mem_rulesOf.mp keptLeft
  obtain ⟨inRight, _⟩ := mem_rulesOf.mp keptRight
  have put := shares.redecorated readyLeft readyRight agree member keptLeft keptRight alike
  have graphs : (grammar.graph (grammar.family round) left).Alike
      (other.graph (other.family round) right) := by
    intro c
    have from_declared := alike.edges c
    have from_redecorated := congrArg (List.filter fun edge : Edge => edge.source = c) put
    rw [List.filter_map, List.filter_map] at from_redecorated
    rw [RuleGraph.edgesFrom, RuleGraph.edgesFrom, RuleGraph.dependencies, RuleGraph.dependencies,
      List.filter_append, List.filter_append, List.map_append, List.map_append]
    exact congrArg₂ (· ++ ·) from_declared from_redecorated
  exact RuleGraph.findings_alike (readyLeft.sound_graph (readyLeft.within_family round) inLeft)
    (readyRight.sound_graph (readyRight.within_family round) inRight) graphs
    (readyLeft.ordered inLeft) (readyRight.ordered inRight)

/-- What happens in the rules of shared symbols is the same in every round, in the same order. -/
theorem Shares.agreeOn_family (shares : grammar.Shares other shared) (readyLeft : grammar.Ready)
    (readyRight : other.Ready) (round : Nat) :
    AgreeOn shared (grammar.family round) (other.family round) := by
  induction round with
  | zero => exact fun _ _ => rfl
  | succ round ih =>
    intro name member
    apply Relations.keys_ofList_congr
    rw [flatMap_numbersOf, flatMap_numbersOf, List.map_flatMap, List.map_flatMap]
    apply Sequence.flatMap_eq_of_forall₂
    refine (Sequence.forall₂_members (shares.alike name member)).imp fun left right both => ?_
    obtain ⟨keptLeft, keptRight, alike⟩ := both
    exact (shares.findings readyLeft readyRight ih member keptLeft keptRight alike).1

/-- Corresponding rules of a shared symbol have snapshots with the same edges and the same cycles. -/
theorem Shares.ruleSnapshot (shares : grammar.Shares other shared) (readyLeft : grammar.Ready)
    (readyRight : other.Ready) (round : Nat) {name : String} (member : shared name)
    {place number otherNumber : Nat} (listed : (grammar.numbersOf name)[place]? = some number)
    (listedOther : (other.numbersOf name)[place]? = some otherNumber) :
    (grammar.ruleSnapshot round number).projections.keys =
        (other.ruleSnapshot round otherNumber).projections.keys ∧
      (grammar.ruleSnapshot round number).redecorated.keys =
        (other.ruleSnapshot round otherNumber).redecorated.keys ∧
      (grammar.ruleSnapshot round number).cycleStarts =
        (other.ruleSnapshot round otherNumber).cycleStarts := by
  have agree := shares.agreeOn_family readyLeft readyRight round
  obtain ⟨left, found, here⟩ := getElem?_rulesOf listed
  obtain ⟨right, foundOther, there⟩ := getElem?_rulesOf listedOther
  obtain ⟨same, present, alike⟩ := Sequence.after_of_getElem? (shares.alike name member) here
  obtain rfl : same = right := by simpa [present] using there
  have keptLeft := List.mem_of_getElem? here
  have keptRight := List.mem_of_getElem? there
  obtain ⟨projections, cycles⟩ :=
    shares.findings readyLeft readyRight agree member keptLeft keptRight alike
  have put := shares.redecorated readyLeft readyRight agree member keptLeft keptRight alike
  simp only [Grammar.ruleSnapshot, found, foundOther, Option.elim_some, RuleRound.record, cycles]
  exact ⟨OrderedMap.keys_insertAll_congr rfl projections, Relations.keys_ofList_congr put, trivial⟩

end Grammar
end AttributeGrammar
