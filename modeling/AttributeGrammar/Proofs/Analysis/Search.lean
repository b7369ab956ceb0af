import AttributeGrammar.Proofs.Analysis.Graph

/-! What the search from one attribute finds.
The links form a tree whose root is the start. A search that comes to its end has visited all that
the start leads to; one that stops at a cycle has found a path back to the start.
-/
namespace AttributeGrammar
open Relation (TransGen)

/-- Links from attributes to those they were reached from, the latest first. -/
inductive SearchTree (graph : RuleGraph) (start : Coordinate) :
    List (Coordinate × Coordinate) → Prop
  | root : SearchTree graph start []
  | grow {links : List (Coordinate × Coordinate)} {child parent : Coordinate}
      (tree : SearchTree graph start links) (edge : graph.Leads parent child)
      (known : parent = start ∨ parent ∈ links.map Prod.fst) (away : child ≠ start)
      (fresh : child ∉ links.map Prod.fst) : SearchTree graph start ((child, parent) :: links)

namespace SearchTree
variable {graph : RuleGraph} {start : Coordinate} {links : List (Coordinate × Coordinate)}

theorem start_not_mem (tree : SearchTree graph start links) : start ∉ links.map Prod.fst := by
  induction tree with
  | root => simp
  | grow _ _ _ away _ ih =>
    rw [List.map_cons, List.mem_cons, not_or]
    exact ⟨away.symm, ih⟩

private theorem path_from_start (tree : SearchTree graph start links) {c : Coordinate}
    (member : c ∈ links.map Prod.fst) : TransGen graph.Leads start c := by
  induction tree generalizing c with
  | root => simp at member
  | grow _ edge known _ _ ih =>
    rcases List.mem_cons.mp member with rfl | earlier
    · rcases known with rfl | reached
      · exact .single edge
      · exact (ih reached).tail edge
    · exact ih earlier

theorem of_lookup (tree : SearchTree graph start links) {c parent : Coordinate}
    (found : links.lookup c = some parent) :
    graph.Leads parent c ∧ (parent = start ∨ parent ∈ links.map Prod.fst) := by
  induction tree with
  | root => simp at found
  | @grow links child former _ edge known _ _ ih =>
    rw [List.lookup_cons] at found
    by_cases same : c = child
    · subst same
      have here : former = parent := by simpa using found
      subst here
      exact ⟨edge, known.imp_right (List.mem_cons_of_mem _)⟩
    · have apart : (c == child) = false := by simpa using same
      have later : links.lookup c = some parent := by simpa [apart] using found
      exact ⟨(ih later).1, (ih later).2.imp_right (List.mem_cons_of_mem _)⟩

private theorem path_of_mem_ancestors (tree : SearchTree graph start links) {limit : Nat}
    {c ancestor : Coordinate} (member : ancestor ∈ ancestors links limit c) :
    TransGen graph.Leads ancestor c := by
  induction limit generalizing c with
  | zero => simp [ancestors] at member
  | succ limit ih =>
    unfold ancestors at member
    split at member
    · simp at member
    · next parent found =>
      have edge := (tree.of_lookup found).1
      rcases List.mem_cons.mp member with rfl | above
      · exact .single edge
      · exact (ih above).tail edge

private theorem ancestors_grow (tree : SearchTree graph start links) {child parent : Coordinate}
    (away : child ≠ start) (fresh : child ∉ links.map Prod.fst) (limit : Nat) {c : Coordinate}
    (known : c = start ∨ c ∈ links.map Prod.fst) :
    ancestors ((child, parent) :: links) limit c = ancestors links limit c := by
  induction limit generalizing c with
  | zero => rfl
  | succ limit ih =>
    have other : c ≠ child := by
      rintro rfl
      exact known.elim away fresh
    have apart : (c == child) = false := by simpa using other
    have lookup : List.lookup c ((child, parent) :: links) = links.lookup c := by
      simp [List.lookup_cons, apart]
    rw [ancestors, ancestors, lookup]
    cases found : links.lookup c with
    | none => rfl
    | some above =>
      dsimp only
      rw [ih (tree.of_lookup found).2]

private theorem known_of_mem_ancestors (tree : SearchTree graph start links) {limit : Nat}
    {c ancestor : Coordinate} (member : ancestor ∈ ancestors links limit c) :
    ancestor = start ∨ ancestor ∈ links.map Prod.fst := by
  induction limit generalizing c with
  | zero => simp [ancestors] at member
  | succ limit ih =>
    unfold ancestors at member
    split at member
    · simp at member
    · next parent found =>
      rcases List.mem_cons.mp member with rfl | above
      · exact (tree.of_lookup found).2
      · exact ih above

/-- Links lead to what was reached before, so none of the ways back comes round. -/
theorem not_mem_ancestors_self (tree : SearchTree graph start links) (limit : Nat)
    (c : Coordinate) : c ∉ ancestors links limit c := by
  cases limit with
  | zero => simp [ancestors]
  | succ limit =>
    induction tree with
    | root => simp [ancestors]
    | @grow links child parent tree _ known away fresh ih =>
      by_cases same : c = child
      · subst same
        have here : List.lookup c ((c, parent) :: links) = some parent := by simp
        rw [ancestors, here]
        dsimp only
        rw [tree.ancestors_grow away fresh limit known, List.mem_cons, not_or]
        refine ⟨fun own => known.elim (own ▸ away) (own ▸ fresh), fun above => ?_⟩
        exact (tree.known_of_mem_ancestors above).elim away fresh
      · by_cases reached : c = start ∨ c ∈ links.map Prod.fst
        · rw [tree.ancestors_grow away fresh _ reached]
          exact ih
        · have apart : (c == child) = false := by simpa using same
          have rootless : List.lookup c ((child, parent) :: links) = none := by
            rw [List.lookup_cons, apart]
            refine List.lookup_eq_none_iff.mpr fun link member => ?_
            rw [bne_iff_ne]
            rintro rfl
            exact reached (Or.inr (List.mem_map_of_mem member))
          rw [ancestors, rootless]
          exact List.not_mem_nil

private theorem start_mem_ancestors (tree : SearchTree graph start links) {c : Coordinate}
    (member : c ∈ links.map Prod.fst) {limit : Nat} (enough : links.length ≤ limit) :
    start ∈ ancestors links limit c := by
  induction tree generalizing c limit with
  | root => simp at member
  | @grow links child parent tree _ known away fresh ih =>
    obtain ⟨limit, rfl⟩ : ∃ less, limit = less + 1 := ⟨limit - 1, by simp at enough; omega⟩
    have shorter : links.length ≤ limit := by simpa using enough
    rcases List.mem_cons.mp member with same | earlier
    · have here : List.lookup c ((child, parent) :: links) = some parent := by
        simp [same]
      rw [ancestors, here]
      dsimp only
      rcases known with rfl | reached
      · exact List.mem_cons_self
      · apply List.mem_cons_of_mem
        rw [tree.ancestors_grow away fresh limit (Or.inr reached)]
        exact ih reached shorter
    · rw [tree.ancestors_grow away fresh _ (Or.inr earlier)]
      exact ih earlier (by omega)

end SearchTree

theorem Coordinate.atRoot_iff {c : Coordinate} : c.atRoot = true ↔ c.symbolIndex = 0 := by
  simp [atRoot]

namespace RuleGraph
variable {graph : RuleGraph} {start : Coordinate} {search : Search}

/-- The dependency joins two different root attributes of which one leads to the other. -/
def Projects (graph : RuleGraph) (d : Dependency) : Prop :=
  ∃ source target : Coordinate, source.atRoot = true ∧ target.atRoot = true ∧ source ≠ target ∧
    TransGen graph.Leads source target ∧ d = graph.projection source target

/-- What holds at every moment of the search from `start`. -/
structure Explores (graph : RuleGraph) (start : Coordinate) (search : Search) : Prop where
  stacked : ∀ d ∈ search.stack, d ∈ graph.dependencies
  sources : ∀ d ∈ search.stack, d.1.source = start ∨ d.1.source ∈ search.visited
  links : search.parents.map Prod.fst = search.visited
  tree : SearchTree graph start search.parents
  closed : ∀ d ∈ graph.dependencies, d.1.source = start ∨ d.1.source ∈ search.visited →
    d.1.target ∈ search.visited ∨ d ∈ search.stack
  projects : ∀ d ∈ search.projections, graph.Projects d
  complete : start.atRoot = true → ∀ c ∈ search.visited, c.atRoot = true →
    graph.projection start c ∈ search.projections

/-- How many dependencies the search can still take from the stack. -/
def pending (graph : RuleGraph) (start : Coordinate) (search : Search) : Nat :=
  search.stack.length +
    (graph.dependencies.filter fun d => d.1.source ≠ start ∧ d.1.source ∉ search.visited).length

private theorem Explores.path_of_source (explores : graph.Explores start search) {d : Dependency}
    (stacked : d ∈ search.stack) : TransGen graph.Leads start d.1.target := by
  have edge : graph.Leads d.1.source d.1.target := ⟨d, explores.stacked d stacked, rfl, rfl⟩
  rcases explores.sources d stacked with same | reached
  · rw [same] at edge
    exact .single edge
  · rw [← explores.links] at reached
    exact (explores.tree.path_from_start reached).tail edge

/-- Reaching an attribute moves what starts from it to the stack and out of the rest. -/
theorem length_filter_reached (dependencies : List Dependency) {target : Coordinate}
    {visited : List Coordinate} (away : target ≠ start) (fresh : target ∉ visited) :
    (dependencies.filter fun d => d.1.source = target).length +
        (dependencies.filter fun d => d.1.source ≠ start ∧ d.1.source ∉ target :: visited).length =
      (dependencies.filter fun d => d.1.source ≠ start ∧ d.1.source ∉ visited).length := by
  induction dependencies with
  | nil => rfl
  | cons d rest ih =>
    by_cases here : d.1.source = target
    · simp [here, away, fresh] at ih ⊢
      omega
    · by_cases left : d.1.source ≠ start ∧ d.1.source ∉ visited
      · simp [here, left] at ih ⊢
        omega
      · have passed : ¬ (d.1.source ≠ start ∧ d.1.source ∉ target :: visited) := by
          simpa [here] using left
        simpa only [List.filter_cons, here, left, passed, decide_false, Bool.false_eq_true,
          if_false] using ih

private theorem projects_of_mem_projectionsTo {links : List (Coordinate × Coordinate)}
    (tree : SearchTree graph start links) {target : Coordinate} {d : Dependency}
    (member : d ∈ graph.projectionsTo links target) : graph.Projects d := by
  unfold projectionsTo at member
  split at member
  · next atRoot =>
    obtain ⟨source, kept, rfl⟩ := List.mem_map.mp member
    obtain ⟨above, root⟩ := List.mem_filter.mp kept
    have different : source ≠ target := by
      rintro rfl
      exact tree.not_mem_ancestors_self _ _ above
    exact ⟨source, target, root, atRoot, different, tree.path_of_mem_ancestors above, rfl⟩
  · simp at member

/-- The search afterwards, when a dependency taken from above the rest has led to a new attribute. -/
def reached (graph : RuleGraph) (search : Search) (d : Dependency) (rest : List Dependency) :
    Search where
  stack := (graph.dependenciesFrom d.1.target).reverse ++ rest
  visited := d.1.target :: search.visited
  parents := (d.1.target, d.1.source) :: search.parents
  projections := search.projections ++
    graph.projectionsTo ((d.1.target, d.1.source) :: search.parents) d.1.target

private theorem Explores.tree_reached (explores : graph.Explores start search) {d : Dependency}
    (member : d ∈ search.stack) (away : d.1.target ≠ start) (fresh : d.1.target ∉ search.visited) :
    SearchTree graph start ((d.1.target, d.1.source) :: search.parents) := by
  rw [← explores.links] at fresh
  have known := explores.sources d member
  rw [← explores.links] at known
  exact explores.tree.grow ⟨d, explores.stacked d member, rfl, rfl⟩ known away fresh

theorem Explores.reach (explores : graph.Explores start search)
    {d : Dependency} {rest : List Dependency} (top : search.stack = d :: rest)
    (away : d.1.target ≠ start) (fresh : d.1.target ∉ search.visited) :
    graph.Explores start (graph.reached search d rest) where
  stacked other stacked := by
    rcases List.mem_append.mp stacked with new | old
    · exact (mem_dependenciesFrom.mp (List.mem_reverse.mp new)).1
    · exact explores.stacked other (by simp [top, old])
  sources other stacked := by
    rcases List.mem_append.mp stacked with new | old
    · right
      rw [(mem_dependenciesFrom.mp (List.mem_reverse.mp new)).2]
      exact List.mem_cons_self
    · exact (explores.sources other (by simp [top, old])).imp_right (List.mem_cons_of_mem _)
  links := by rw [reached, List.map_cons, explores.links]
  tree := explores.tree_reached (by simp [top]) away fresh
  closed other kept leaves := by
    -- What leaves the new coordinate is pushed; only the popped relation is no longer on the stack.
    by_cases here : other.1.source = d.1.target
    · right
      exact List.mem_append_left _ (List.mem_reverse.mpr (mem_dependenciesFrom.mpr ⟨kept, here⟩))
    · have before : other.1.source = start ∨ other.1.source ∈ search.visited := by
        simpa [reached, here] using leaves
      rcases explores.closed other kept before with visited | stacked
      · exact Or.inl (List.mem_cons_of_mem _ visited)
      · rw [top] at stacked
        rcases List.mem_cons.mp stacked with rfl | later
        · exact Or.inl List.mem_cons_self
        · exact Or.inr (List.mem_append_right _ later)
  projects other found := by
    rcases List.mem_append.mp found with old | new
    · exact explores.projects other old
    · exact projects_of_mem_projectionsTo (explores.tree_reached (by simp [top]) away fresh) new
  complete startAtRoot c visited atRoot := by
    rcases List.mem_cons.mp visited with rfl | earlier
    · have tree := explores.tree_reached (show d ∈ search.stack by simp [top]) away fresh
      apply List.mem_append_right
      rw [projectionsTo, if_pos atRoot]
      apply List.mem_map_of_mem
      exact List.mem_filter.mpr ⟨tree.start_mem_ancestors (by simp) (Nat.le_refl _), startAtRoot⟩
    · exact List.mem_append_left _ (explores.complete startAtRoot c earlier atRoot)

private theorem pending_reached {d : Dependency} {rest : List Dependency} (away : d.1.target ≠ start)
    (fresh : d.1.target ∉ search.visited) : graph.pending start (graph.reached search d rest) =
      rest.length + (graph.dependencies.filter fun other =>
        other.1.source ≠ start ∧ other.1.source ∉ search.visited).length := by
  rw [← length_filter_reached graph.dependencies away fresh]
  calc graph.pending start (graph.reached search d rest)
    _ = ((graph.dependenciesFrom d.1.target).reverse ++ rest).length +
        (graph.dependencies.filter fun other =>
          other.1.source ≠ start ∧ other.1.source ∉ d.1.target :: search.visited).length := rfl
    _ = _ := by
      rw [List.length_append, List.length_reverse, dependenciesFrom]
      omega

/-- What the step does with the topmost dependency, by where it leads. -/
theorem step_of_top (sound : graph.Sound) (start : Coordinate) {d : Dependency}
    {rest : List Dependency} (top : search.stack = d :: rest) (member : d ∈ graph.dependencies) :
    (d.1.target = start ∧
      graph.step start search = ({ search with stack := rest }, some .cycle)) ∨
    (d.1.target ≠ start ∧ d.1.target ∈ search.visited ∧
      graph.step start search = ({ search with stack := rest }, none)) ∨
    (d.1.target ≠ start ∧ d.1.target ∉ search.visited ∧
      graph.step start search = (graph.reached search d rest, none)) := by
  have source : d.source = d.1.source := rfl
  have target : d.target = d.1.target := rfl
  have leaving := leaving_of_holds sound (sound.holds_target member)
  by_cases back : d.1.target = start
  · exact Or.inl ⟨back, by simp [step, top, target, back]⟩
  · by_cases known : d.1.target ∈ search.visited
    · exact Or.inr (Or.inl ⟨back, known, by simp [step, top, target, back, known]⟩)
    · refine Or.inr (Or.inr ⟨back, known, ?_⟩)
      simp [step, reached, top, source, target, back, known, leaving]

/-- A dependency that leads to a visited attribute is dropped. -/
theorem Explores.drop (explores : graph.Explores start search) {d : Dependency}
    {rest : List Dependency} (top : search.stack = d :: rest) (known : d.1.target ∈ search.visited) :
    graph.Explores start { search with stack := rest } where
  stacked other later := explores.stacked other (by simp [top, List.mem_cons_of_mem _ later])
  sources other later := explores.sources other (by simp [top, List.mem_cons_of_mem _ later])
  links := explores.links
  tree := explores.tree
  closed other kept leaves := by
    rcases explores.closed other kept leaves with visited | stacked
    · exact Or.inl visited
    · rw [top] at stacked
      rcases List.mem_cons.mp stacked with rfl | later
      · exact Or.inl known
      · exact Or.inr later
  projects := explores.projects
  complete := explores.complete

/-- One step ends the search, finds a cycle, or leaves less to do. -/
theorem step_cases (sound : graph.Sound) (explores : graph.Explores start search) :
    (search.stack = [] ∧ graph.step start search = (search, some .exhausted)) ∨
    (∃ rest, graph.step start search = ({ search with stack := rest }, some .cycle) ∧
      TransGen graph.Leads start start) ∨
    ∃ next, graph.step start search = (next, none) ∧ graph.Explores start next ∧
      graph.pending start next < graph.pending start search := by
  cases top : search.stack with
  | nil => exact Or.inl ⟨rfl, by simp [step, top]⟩
  | cons d rest =>
    right
    have stacked : d ∈ search.stack := by simp [top]
    rcases step_of_top sound start top (explores.stacked d stacked) with
      ⟨back, went⟩ | ⟨_, known, went⟩ | ⟨away, fresh, went⟩
    · left
      refine ⟨rest, went, ?_⟩
      have path := explores.path_of_source stacked
      rwa [back] at path
    · exact Or.inr ⟨_, went, explores.drop top known, by simp [pending, top]⟩
    · refine Or.inr ⟨_, went, explores.reach top away fresh, ?_⟩
      rw [pending_reached away fresh, pending, top, List.length_cons]
      omega

private theorem searchFrom_cases (sound : graph.Sound) {limit : Nat}
    (explores : graph.Explores start search) (enough : graph.pending start search < limit) :
    ∃ final, (graph.searchFrom start limit search = (final, .exhausted) ∧
        graph.Explores start final ∧ final.stack = []) ∨
      (graph.searchFrom start limit search = (final, .cycle) ∧ TransGen graph.Leads start start ∧
        ∀ d ∈ final.projections, graph.Projects d) := by
  induction limit generalizing search with
  | zero => omega
  | succ limit ih =>
    rcases step_cases sound explores with ⟨empty, ended⟩ | ⟨rest, ended, cycle⟩ | ⟨next, went, kept, less⟩
    · exact ⟨search, Or.inl ⟨by rw [searchFrom, ended], explores, empty⟩⟩
    · exact ⟨{ search with stack := rest }, Or.inr ⟨by rw [searchFrom, ended], cycle,
        explores.projects⟩⟩
    · obtain ⟨final, ending⟩ := ih kept (by omega)
      refine ⟨final, ?_⟩
      rw [searchFrom, went]
      exact ending

theorem explores_start (graph : RuleGraph) (start : Coordinate) :
    graph.Explores start { stack := (graph.dependenciesFrom start).reverse } where
  stacked _ stacked := (mem_dependenciesFrom.mp (List.mem_reverse.mp stacked)).1
  sources _ stacked := Or.inl (mem_dependenciesFrom.mp (List.mem_reverse.mp stacked)).2
  links := rfl
  tree := .root
  closed d kept leaves := by
    have source : d.1.source = start := by simpa using leaves
    exact Or.inr (List.mem_reverse.mpr (mem_dependenciesFrom.mpr ⟨kept, source⟩))
  projects := by simp
  complete := by simp

private theorem Explores.visited_of_path (explores : graph.Explores start search)
    (ended : search.stack = []) {c : Coordinate} (path : TransGen graph.Leads start c) :
    c ∈ search.visited := by
  have follow {source target : Coordinate} (leaves : source = start ∨ source ∈ search.visited)
      (edge : graph.Leads source target) : target ∈ search.visited := by
    obtain ⟨d, member, rfl, rfl⟩ := edge
    simpa [ended] using explores.closed d member leaves
  induction path with
  | single edge => exact follow (Or.inl rfl) edge
  | tail _ edge ih => exact follow (Or.inr ih) edge

private theorem length_filter_split (dependencies : List Dependency) (start : Coordinate) :
    (dependencies.filter fun d => d.1.source = start).length +
        (dependencies.filter fun d => d.1.source ≠ start ∧ d.1.source ∉ []).length =
      dependencies.length := by
  induction dependencies with
  | nil => rfl
  | cons d rest ih => by_cases here : d.1.source = start <;> simp_all <;> omega

/-- Every dependency is taken at most once, so the limit is never reached. -/
theorem pending_start_lt (graph : RuleGraph) (start : Coordinate) :
    graph.pending start { stack := (graph.dependenciesFrom start).reverse } < graph.stepLimit := by
  have all := length_filter_split graph.dependencies start
  have square := Nat.le_mul_self (graph.dependencies.length + 1)
  simp only [pending, dependenciesFrom, stepLimit, List.length_reverse]
  omega

/-- The search from an attribute of the rule finds a cycle just when the attribute is on one, and
otherwise every root attribute that it leads to. -/
theorem search_cases (sound : graph.Sound) (holds : graph.rule.Holds start) :
    ∃ final, (∀ d ∈ final.projections, graph.Projects d) ∧
      ((graph.search start = (final, .exhausted) ∧ ¬ TransGen graph.Leads start start ∧
          (start.atRoot = true → ∀ c, c.atRoot = true → TransGen graph.Leads start c →
            graph.projection start c ∈ final.projections)) ∨
        (graph.search start = (final, .cycle) ∧ TransGen graph.Leads start start)) := by
  have begun : graph.search start = graph.searchFrom start graph.stepLimit
      { stack := (graph.dependenciesFrom start).reverse } := by
    rw [search, leaving_of_holds sound holds]
  obtain ⟨final, ending⟩ :=
    searchFrom_cases sound (explores_start graph start) (pending_start_lt graph start)
  rw [← begun] at ending
  rcases ending with ⟨ended, explores, empty⟩ | ⟨ended, cycle, projects⟩
  · refine ⟨final, explores.projects, Or.inl ⟨ended, fun cycle => ?_, fun startAtRoot c atRoot path => ?_⟩⟩
    · apply explores.tree.start_not_mem
      rw [explores.links]
      exact explores.visited_of_path empty cycle
    · exact explores.complete startAtRoot c (explores.visited_of_path empty path) atRoot
  · exact ⟨final, projects, Or.inr ⟨ended, cycle⟩⟩

end RuleGraph

/-! ### All searches -/

private theorem mem_firstsFrom {seen : OrderedMap Coordinate (List Coordinate)}
    {dependencies : List Dependency} {d : Dependency}
    (member : d ∈ Dependency.firstsFrom seen dependencies) : d ∈ dependencies := by
  induction dependencies generalizing seen with
  | nil => exact member
  | cons head rest ih =>
    unfold Dependency.firstsFrom at member
    dsimp only at member
    split at member
    · exact List.mem_cons_of_mem _ (ih member)
    · rcases List.mem_cons.mp member with here | later
      · exact here ▸ List.mem_cons_self
      · exact List.mem_cons_of_mem _ (ih later)

private theorem edge_mem_firstsFrom {seen : OrderedMap Coordinate (List Coordinate)}
    {dependencies : List Dependency} {d : Dependency} (member : d ∈ dependencies) :
    d.1.target ∈ (seen.get? d.1.source).getD [] ∨
      d.1 ∈ (Dependency.firstsFrom seen dependencies).map Prod.fst := by
  induction dependencies generalizing seen with
  | nil => cases member
  | cons head rest ih =>
    unfold Dependency.firstsFrom
    dsimp only
    split
    · next known =>
      rcases List.mem_cons.mp member with rfl | later
      · exact Or.inl (by simpa using known)
      · exact ih later
    · rcases List.mem_cons.mp member with rfl | later
      · exact Or.inr List.mem_cons_self
      · rcases @ih (seen.insert head.1.source
          (head.1.target :: (seen.get? head.1.source).getD [])) later with known | kept
        · rw [OrderedMap.get?_insert] at known
          by_cases same : d.1.source = head.1.source
          · rw [if_pos same] at known
            rcases List.mem_cons.mp known with target | before
            · right
              have edge : d.1 = head.1 := by
                cases first : d.1
                cases second : head.1
                simp_all
              rw [edge]
              exact List.mem_cons_self
            · exact Or.inl (same ▸ before)
          · rw [if_neg same] at known
            exact Or.inl known
        · exact Or.inr (List.mem_cons_of_mem _ kept)

private theorem mem_firsts {dependencies : List Dependency} {d : Dependency}
    (member : d ∈ Dependency.firsts dependencies) : d ∈ dependencies :=
  mem_firstsFrom member

private theorem edge_mem_firsts {dependencies : List Dependency} {edge : Edge} :
    edge ∈ (Dependency.firsts dependencies).map Prod.fst ↔ edge ∈ dependencies.map Prod.fst := by
  constructor
  · intro member
    obtain ⟨d, kept, rfl⟩ := List.mem_map.mp member
    exact List.mem_map_of_mem (mem_firsts kept)
  · intro member
    obtain ⟨d, present, rfl⟩ := List.mem_map.mp member
    have found : d.1.target ∈ ((∅ : OrderedMap Coordinate (List Coordinate)).get? d.1.source).getD [] ∨
        d.1 ∈ (Dependency.firsts dependencies).map Prod.fst := edge_mem_firstsFrom present
    exact found.resolve_left (by simp)

namespace RuleGraph
variable {graph : RuleGraph}

/-- What the searches from these attributes have found, when every one of them came to its end. -/
structure Finds (graph : RuleGraph) (starts : List Coordinate) (found : Findings) : Prop where
  fault : found.fault? = none
  projects : ∀ d ∈ found.projections, graph.Projects d
  cycles : ∀ c, c ∈ found.cycleStarts ↔ c ∈ starts ∧ TransGen graph.Leads c c
  complete : ∀ start ∈ starts, start.atRoot = true → ¬ TransGen graph.Leads start start → ∀ c,
    c.atRoot = true → TransGen graph.Leads start c → graph.projection start c ∈ found.projections

namespace Finds
variable {start : Coordinate} {rest : List Coordinate} {projections : List Dependency}
  {others : Findings}

private theorem of_exhausted (finds : graph.Finds rest others)
    (projects : ∀ d ∈ projections, graph.Projects d) (acyclic : ¬ TransGen graph.Leads start start)
    (all : start.atRoot = true → ∀ c, c.atRoot = true → TransGen graph.Leads start c →
      graph.projection start c ∈ projections) :
    graph.Finds (start :: rest)
      { others with projections := projections ++ others.projections } where
  fault := finds.fault
  projects d member := (List.mem_append.mp member).elim (projects d) (finds.projects d)
  cycles c := by
    rw [finds.cycles, List.mem_cons]
    constructor
    · exact fun ⟨later, cycle⟩ => ⟨Or.inr later, cycle⟩
    · rintro ⟨rfl | later, cycle⟩
      · exact absurd cycle acyclic
      · exact ⟨later, cycle⟩
  complete other member startAtRoot alone c atRoot path := by
    rcases List.mem_cons.mp member with rfl | later
    · exact List.mem_append_left _ (all startAtRoot c atRoot path)
    · exact List.mem_append_right _ (finds.complete other later startAtRoot alone c atRoot path)

/-- A search that meets a cycle is kept by its start, and promises nothing about its projections. -/
theorem of_cycle (finds : graph.Finds rest others)
    (projects : ∀ d ∈ projections, graph.Projects d) (cycle : TransGen graph.Leads start start) :
    graph.Finds (start :: rest)
      { others with
        projections := projections ++ others.projections
        cycleStarts := start :: others.cycleStarts } where
  fault := finds.fault
  projects d member := (List.mem_append.mp member).elim (projects d) (finds.projects d)
  cycles c := by
    rw [List.mem_cons, finds.cycles, List.mem_cons]
    constructor
    · rintro (rfl | ⟨later, path⟩)
      · exact ⟨Or.inl rfl, cycle⟩
      · exact ⟨Or.inr later, path⟩
    · rintro ⟨rfl | later, path⟩
      · exact Or.inl rfl
      · exact Or.inr ⟨later, path⟩
  complete other member startAtRoot alone c atRoot path := by
    rcases List.mem_cons.mp member with rfl | later
    · exact absurd cycle alone
    · exact List.mem_append_right _ (finds.complete other later startAtRoot alone c atRoot path)

end Finds

private theorem finds_findingsFrom (sound : graph.Sound) {starts : List Coordinate}
    (holds : ∀ start ∈ starts, graph.rule.Holds start) :
    graph.Finds starts (graph.findingsFrom starts) := by
  induction starts with
  | nil => constructor <;> simp [findingsFrom]
  | cons start rest ih =>
    have others := ih fun other later => holds other (List.mem_cons_of_mem _ later)
    obtain ⟨final, found, ending⟩ := search_cases sound (holds start List.mem_cons_self)
    rcases ending with ⟨ended, acyclic, all⟩ | ⟨ended, cycle⟩
    · rw [findingsFrom, ended]
      exact others.of_exhausted found acyclic all
    · rw [findingsFrom, ended]
      exact others.of_cycle found cycle

private theorem finds_attributes (sound : graph.Sound) :
    graph.Finds graph.attributes (graph.findingsFrom graph.attributes) :=
  finds_findingsFrom sound fun _ member => mem_attributes.mp member

theorem fault_findings (sound : graph.Sound) : graph.findings.fault? = none :=
  (finds_attributes sound).fault

theorem projects_findings (sound : graph.Sound) : ∀ d ∈ graph.findings.projections,
    graph.Projects d := fun d member =>
  (finds_attributes sound).projects d (mem_firsts member)

private theorem mem_cycleStarts (sound : graph.Sound) {c : Coordinate} :
    c ∈ graph.findings.cycleStarts ↔ TransGen graph.Leads c c := by
  have found := (finds_attributes sound).cycles c
  refine found.trans ⟨And.right, fun cycle => ⟨mem_attributes.mpr ?_, cycle⟩⟩
  exact (sound.holds_of_path cycle).1

theorem cycleStarts_eq_nil_iff (sound : graph.Sound) :
    graph.findings.cycleStarts = [] ↔ ¬ graph.Cyclic := by
  simp [List.eq_nil_iff_forall_not_mem, mem_cycleStarts sound, Cyclic]

theorem projection_of_path (sound : graph.Sound) {source target : String}
    (alone : ¬ TransGen graph.Leads ⟨0, source⟩ ⟨0, source⟩)
    (path : TransGen graph.Leads ⟨0, source⟩ ⟨0, target⟩) :
    ⟨⟨0, source⟩, ⟨0, target⟩⟩ ∈ graph.findings.projections.map Prod.fst := by
  have held := (sound.holds_of_path path).1
  have found := (finds_attributes sound).complete ⟨0, source⟩ (mem_attributes.mpr held) rfl alone
    ⟨0, target⟩ rfl path
  exact edge_mem_firsts.mpr (List.mem_map_of_mem found)

theorem path_of_projection (sound : graph.Sound) {edge : Edge}
    (member : edge ∈ graph.findings.projections.map Prod.fst) :
    ∃ source target, edge = ⟨⟨0, source⟩, ⟨0, target⟩⟩ ∧ source ≠ target ∧
      TransGen graph.Leads ⟨0, source⟩ ⟨0, target⟩ := by
  obtain ⟨d, found, rfl⟩ := List.mem_map.mp member
  obtain ⟨⟨first, source⟩, ⟨second, target⟩, sourceAtRoot, targetAtRoot, different, path, rfl⟩ :=
    projects_findings sound d found
  obtain rfl := Coordinate.atRoot_iff.mp sourceAtRoot
  obtain rfl := Coordinate.atRoot_iff.mp targetAtRoot
  exact ⟨source, target, rfl, fun same => different (by rw [same]), path⟩

end RuleGraph
end AttributeGrammar
