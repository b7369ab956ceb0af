import AttributeGrammar.Proofs.Analysis.Search
import Mathlib

/-! The moments of the search from one attribute.
At every moment the links lead from each visited attribute back to the start, and what was pushed so
far are the dependencies of the start and of the visited attributes, each of them once. So the search
comes to its end after at most as many pops as the graph has dependencies.
-/
namespace AttributeGrammar
open scoped List

/-! ### Ways back to the start -/

/-- The way from an attribute up the links, to the first attribute that has no parent. -/
inductive Ascends (links : List (Coordinate × Coordinate)) : Coordinate → List Coordinate → Prop
  | top {c : Coordinate} (root : links.lookup c = none) : Ascends links c []
  | up {c parent : Coordinate} {way : List Coordinate} (link : links.lookup c = some parent)
      (above : Ascends links parent way) : Ascends links c (parent :: way)

namespace Ascends
variable {links : List (Coordinate × Coordinate)} {c : Coordinate} {way : List Coordinate}

private theorem ancestors_eq (ascends : Ascends links c way) {limit : Nat}
    (enough : way.length ≤ limit) :
    ancestors links limit c = way := by
  induction ascends generalizing limit with
  | top root =>
    cases limit with
    | zero => rfl
    | succ limit => rw [ancestors, root]
  | up link _ ih =>
    obtain ⟨limit, rfl⟩ : ∃ less, limit = less + 1 := ⟨limit - 1, by simp at enough; omega⟩
    rw [ancestors, link]
    dsimp only
    rw [ih (by simpa using enough)]

end Ascends

namespace SearchTree
variable {graph : RuleGraph} {start : Coordinate} {links : List (Coordinate × Coordinate)}

private theorem lookup_start (tree : SearchTree graph start links) : links.lookup start = none := by
  refine List.lookup_eq_none_iff.mpr fun link member => ?_
  rw [bne_iff_ne]
  rintro rfl
  exact tree.start_not_mem (List.mem_map_of_mem member)

private theorem nodup_keys (tree : SearchTree graph start links) : (links.map Prod.fst).Nodup := by
  induction tree with
  | root => exact List.nodup_nil
  | grow _ _ _ _ fresh ih => exact List.nodup_cons.mpr ⟨fresh, ih⟩

private theorem leads_of_mem (tree : SearchTree graph start links) {child parent : Coordinate}
    (member : (child, parent) ∈ links) : graph.Leads parent child := by
  induction tree with
  | root => cases member
  | grow _ edge _ _ _ ih =>
    rcases List.mem_cons.mp member with same | earlier
    · obtain ⟨rfl, rfl⟩ := Prod.mk.inj same
      exact edge
    · exact ih earlier

/-- A new attribute is not on the ways from those that were known before. -/
theorem ascends_grow (tree : SearchTree graph start links) {child : Coordinate} (parent : Coordinate)
    (away : child ≠ start) (fresh : child ∉ links.map Prod.fst) {c : Coordinate}
    {way : List Coordinate} (known : c = start ∨ c ∈ links.map Prod.fst)
    (ascends : Ascends links c way) :
    Ascends ((child, parent) :: links) c way ∧ child ∉ way := by
  have lookup {c : Coordinate} (known : c = start ∨ c ∈ links.map Prod.fst) :
      List.lookup c ((child, parent) :: links) = links.lookup c := by
    have other : c ≠ child := by
      rintro rfl
      exact known.elim away fresh
    have apart : (c == child) = false := by simpa using other
    simp [List.lookup_cons, apart]
  induction ascends with
  | top root => exact ⟨.top (by rw [lookup known, root]), List.not_mem_nil⟩
  | up link _ ih =>
    have above := (tree.of_lookup link).2
    obtain ⟨grown, absent⟩ := ih above
    refine ⟨.up (by rw [lookup known, link]) grown, ?_⟩
    rw [List.mem_cons, not_or]
    refine ⟨?_, absent⟩
    rintro rfl
    exact above.elim away fresh

/-- From every linked attribute a way leads to the start, and passes no attribute twice. -/
theorem exists_way (tree : SearchTree graph start links) {c : Coordinate}
    (member : c ∈ links.map Prod.fst) : ∃ way, Ascends links c way ∧ (c :: way).Nodup ∧
      way.getLast? = some start ∧ way.length ≤ links.length := by
  induction tree generalizing c with
  | root => cases member
  | @grow links child parent tree edge known away fresh ih =>
    -- The way from the new attribute goes through its parent, which is the start or was linked before.
    obtain ⟨above, ascends, distinct, last, short⟩ : ∃ above, Ascends links parent above ∧
        (parent :: above).Nodup ∧ (parent :: above).getLast? = some start ∧
        above.length ≤ links.length := by
      rcases known with rfl | linked
      · exact ⟨[], .top tree.lookup_start, List.nodup_singleton _, rfl, Nat.zero_le _⟩
      · obtain ⟨above, ascends, distinct, last, short⟩ := ih linked
        exact ⟨above, ascends, distinct, by rw [List.getLast?_cons, last]; rfl, short⟩
    rcases List.mem_cons.mp member with rfl | earlier
    · obtain ⟨grown, absent⟩ := tree.ascends_grow parent away fresh known ascends
      refine ⟨parent :: above, .up (by simp) grown, ?_, last, by simpa using short⟩
      refine List.nodup_cons.mpr ⟨?_, distinct⟩
      rw [List.mem_cons, not_or]
      refine ⟨?_, absent⟩
      rintro rfl
      exact known.elim away fresh
    · obtain ⟨way, ascends, distinct, last, short⟩ := ih earlier
      obtain ⟨grown, _⟩ := tree.ascends_grow parent away fresh (Or.inr earlier) ascends
      exact ⟨way, grown, distinct, last, by simp; omega⟩

end SearchTree

/-! ### Moments of a search -/

namespace RuleGraph

/-- Once these dependencies were popped, the latest first, the search stands so; an ending tells why
nothing more is popped. -/
inductive Moment (graph : RuleGraph) (start : Coordinate) :
    (popped : List Dependency) → Search → Option SearchEnd → Prop
  | begun {leaving : List Dependency} (leaves : graph.leaving start = .ok leaving) :
      Moment graph start [] { stack := leaving.reverse } none
  | pop {popped rest : List Dependency} {d : Dependency} {before after : Search}
      {ending : Option SearchEnd} (moment : Moment graph start popped before none)
      (top : before.stack = d :: rest) (went : graph.step start before = (after, ending)) :
      Moment graph start (d :: popped) after ending

variable {graph : RuleGraph} {start : Coordinate}

def leavingAny (graph : RuleGraph) (sources : List Coordinate) : List Dependency :=
  graph.dependencies.filter fun d => d.1.source ∈ sources

/-- The link was made at an earlier moment, when its parent was known and its child was not. -/
def LinkedSince (graph : RuleGraph) (start : Coordinate) (popped : List Dependency)
    (child parent : Coordinate) : Prop :=
  ∃ (earlier : List Dependency) (before : Search), Moment graph start earlier before none ∧
    earlier.length < popped.length ∧ (parent = start ∨ parent ∈ before.visited) ∧
    child ∉ before.visited

/-- What holds of the search from `start` at the moment at which these dependencies were popped. -/
structure Rooted (graph : RuleGraph) (start : Coordinate) (popped : List Dependency)
    (search : Search) : Prop where
  apart : start ∉ search.visited ∧ start ∉ search.parents.map Prod.fst
  visited : ∀ c, c ∈ search.visited ↔ c ∈ search.parents.map Prod.fst
  distinct : search.visited.Nodup ∧ (search.parents.map Prod.fst).Nodup
  links : ∀ child parent, (child, parent) ∈ search.parents →
    graph.Leads parent child ∧ LinkedSince graph start popped child parent
  ways : ∀ c ∈ search.visited, ∃ way, Ascends search.parents c way ∧ (c :: way).Nodup ∧
    way.getLast? = some start ∧
    ∀ limit, search.parents.length ≤ limit → ancestors search.parents limit c = way
  pushed : (popped ++ search.stack).Perm (graph.leavingAny (search.visited ++ [start]))

theorem LinkedSince.later {popped : List Dependency} {child parent : Coordinate}
    (linked : LinkedSince graph start popped child parent) (d : Dependency) :
    LinkedSince graph start (d :: popped) child parent := by
  obtain ⟨earlier, before, moment, fewer, known, fresh⟩ := linked
  exact ⟨earlier, before, moment, by simp; omega, known, fresh⟩

/-- Visiting an attribute adds what starts from it, once. -/
theorem leavingAny_cons {sources : List Coordinate} {c : Coordinate} (fresh : c ∉ sources) :
    (graph.dependenciesFrom c ++ graph.leavingAny sources).Perm
      (graph.leavingAny (c :: sources)) := by
  have split := List.filter_append_perm (fun d => d.1.source = c) (graph.leavingAny (c :: sources))
  have here : (graph.leavingAny (c :: sources)).filter (fun d => d.1.source = c) =
      graph.dependenciesFrom c := by
    rw [leavingAny, dependenciesFrom, List.filter_filter]
    refine List.filter_congr fun d _ => ?_
    by_cases same : d.1.source = c <;> simp [same]
  have others : (graph.leavingAny (c :: sources)).filter (fun d => !decide (d.1.source = c)) =
      graph.leavingAny sources := by
    rw [leavingAny, leavingAny, List.filter_filter]
    refine List.filter_congr fun d _ => ?_
    by_cases same : d.1.source = c <;> simp [same, fresh]
  rwa [here, others] at split

private theorem rooted_of_tree {popped : List Dependency} {search : Search}
    (tree : SearchTree graph start search.parents)
    (keys : search.parents.map Prod.fst = search.visited)
    (linked : ∀ child parent, (child, parent) ∈ search.parents →
      LinkedSince graph start popped child parent)
    (pushed : (popped ++ search.stack).Perm (graph.leavingAny (search.visited ++ [start]))) :
    Rooted graph start popped search := by
  refine ⟨?_, fun c => by rw [keys], ?_, fun child parent member => ?_, fun c visited => ?_, pushed⟩
  · exact ⟨keys ▸ tree.start_not_mem, tree.start_not_mem⟩
  · exact ⟨keys ▸ tree.nodup_keys, tree.nodup_keys⟩
  · exact ⟨tree.leads_of_mem member, linked child parent member⟩
  · rw [← keys] at visited
    obtain ⟨way, ascends, distinct, last, short⟩ := tree.exists_way visited
    exact ⟨way, ascends, distinct, last, fun limit enough => ascends.ancestors_eq (by omega)⟩

/-- A popped dependency that leads to the start or to a visited attribute changes the stack only. -/
theorem Rooted.pop {popped rest : List Dependency} {search : Search} {d : Dependency}
    (rooted : Rooted graph start popped search) (top : search.stack = d :: rest) :
    Rooted graph start (d :: popped) { search with stack := rest } where
  apart := rooted.apart
  visited := rooted.visited
  distinct := rooted.distinct
  links child parent member :=
    ⟨(rooted.links child parent member).1, (rooted.links child parent member).2.later d⟩
  ways := rooted.ways
  pushed := by
    have pushed := rooted.pushed
    rw [top] at pushed
    exact List.perm_middle.symm.trans pushed

/-- At every moment the search explores the graph, or has just met its start; it is never blocked. -/
theorem Moment.rooted (sound : graph.Sound) (holds : graph.rule.Holds start)
    {popped : List Dependency} {search : Search} {ending : Option SearchEnd}
    (moment : Moment graph start popped search ending) :
    (ending = none ∧ graph.Explores start search ∨ ending = some .cycle) ∧
      Rooted graph start popped search := by
  induction moment with
  | @begun leaving leaves =>
    rw [leaving_of_holds sound holds, Except.ok.injEq] at leaves
    subst leaves
    refine ⟨Or.inl ⟨rfl, graph.explores_start start⟩,
      rooted_of_tree .root rfl (fun _ _ member => by cases member) ?_⟩
    simp [leavingAny, dependenciesFrom, List.reverse_perm]
  | @pop popped rest d before after ending moment top went ih =>
    obtain ⟨explored, rooted⟩ := ih
    have explores : graph.Explores start before := by simpa using explored
    have stacked : d ∈ before.stack := by simp [top]
    rcases step_of_top sound start top (explores.stacked d stacked) with
      ⟨_, stepped⟩ | ⟨_, known, stepped⟩ | ⟨away, fresh, stepped⟩
    · obtain ⟨rfl, rfl⟩ := Prod.mk.inj (went.symm.trans stepped)
      exact ⟨Or.inr rfl, rooted.pop top⟩
    · obtain ⟨rfl, rfl⟩ := Prod.mk.inj (went.symm.trans stepped)
      exact ⟨Or.inl ⟨rfl, explores.drop top known⟩, rooted.pop top⟩
    · obtain ⟨rfl, rfl⟩ := Prod.mk.inj (went.symm.trans stepped)
      have reached := explores.reach top away fresh
      refine ⟨Or.inl ⟨rfl, reached⟩, rooted_of_tree reached.tree reached.links ?_ ?_⟩
      · intro child parent member
        rcases List.mem_cons.mp member with same | earlier
        · obtain ⟨rfl, rfl⟩ := Prod.mk.inj same
          exact ⟨popped, before, moment, by simp, explores.sources d stacked, fresh⟩
        · exact (rooted.links child parent earlier).2.later d
      · -- What starts from the new attribute is pushed, and the popped dependency is pushed no more.
        have others : d.1.target ∉ before.visited ++ [start] := by simp [away, fresh]
        have pushed := rooted.pushed
        rw [top] at pushed
        let leaving := graph.dependenciesFrom d.1.target
        calc (d :: popped) ++ (leaving.reverse ++ rest)
          _ ~ leaving.reverse ++ ((d :: popped) ++ rest) := List.perm_append_comm_assoc _ _ _
          _ ~ leaving ++ (popped ++ d :: rest) := leaving.reverse_perm.append List.perm_middle.symm
          _ ~ leaving ++ graph.leavingAny (before.visited ++ [start]) := pushed.append_left leaving
          _ ~ graph.leavingAny (d.1.target :: (before.visited ++ [start])) := leavingAny_cons others

private theorem Rooted.length_popped_le {popped : List Dependency} {search : Search}
    (rooted : Rooted graph start popped search) :
    popped.length + search.stack.length ≤ graph.dependencies.length := by
  rw [← List.length_append, rooted.pushed.length_eq]
  exact List.length_filter_le _ _

/-- Why the search pops nothing more: it met its start, or nothing is left on the stack. -/
inductive Stops (search : Search) : Option SearchEnd → SearchEnd → Prop
  | met : Stops search (some .cycle) .cycle
  | emptied (empty : search.stack = []) : Stops search none .exhausted

/-- From every moment the search comes to the same last one, if it may pop often enough. -/
theorem Moment.exists_last (sound : graph.Sound) (holds : graph.rule.Holds start)
    {popped : List Dependency} {search : Search} (moment : Moment graph start popped search none) :
    ∃ all final ending result, popped.length ≤ all.length ∧ Moment graph start all final ending ∧
      Stops final ending result ∧ ∀ limit, all.length < popped.length + limit →
        graph.searchFrom start limit search = (final, result) := by
  -- Every pop leaves fewer dependencies of the graph that were not popped yet.
  induction left : graph.dependencies.length - popped.length using Nat.strong_induction_on
    generalizing popped search with
  | _ left ih =>
    cases top : search.stack with
    | nil =>
      refine ⟨popped, search, none, .exhausted, le_rfl, moment, .emptied top,
        fun limit enough => ?_⟩
      obtain ⟨less, rfl⟩ : ∃ less, limit = less + 1 := ⟨limit - 1, by omega⟩
      simp [searchFrom, step, top]
    | cons d rest =>
      obtain ⟨_, rooted⟩ := moment.rooted sound holds
      have below := rooted.length_popped_le
      rw [top, List.length_cons] at below
      cases went : graph.step start search with
      | mk after ending =>
        have next := moment.pop top went
        have count : (d :: popped).length = popped.length + 1 := List.length_cons
        rcases (next.rooted sound holds).1 with ⟨rfl, _⟩ | rfl
        · obtain ⟨all, final, ending, result, more, last, stops, same⟩ :=
            ih _ (by omega) next rfl
          refine ⟨all, final, ending, result, by omega, last, stops, fun limit enough => ?_⟩
          obtain ⟨less, rfl⟩ : ∃ less, limit = less + 1 := ⟨limit - 1, by omega⟩
          rw [searchFrom, went]
          exact same less (by omega)
        · refine ⟨_, after, _, .cycle, by omega, next, .met, fun limit enough => ?_⟩
          obtain ⟨less, rfl⟩ : ∃ less, limit = less + 1 := ⟨limit - 1, by omega⟩
          rw [searchFrom, went]

/-- At every moment of a search the links lead from each visited attribute back to the start, along
edges to attributes that were visited earlier, and the dependencies pushed so far are those of the start
and of the visited attributes, each of them once. The search ends after at most as many pops as the
graph has dependencies, at the same moment for every limit above their number. -/
theorem search_rooted (sound : graph.Sound) (holds : graph.rule.Holds start) :
    (∀ popped search ending, Moment graph start popped search ending →
      Rooted graph start popped search ∧ popped.length ≤ graph.dependencies.length) ∧
    ∃ popped final ending result, Moment graph start popped final ending ∧
      Stops final ending result ∧ graph.search start = (final, result) ∧
      ∀ leaving, graph.leaving start = .ok leaving → ∀ limit, popped.length < limit →
        graph.searchFrom start limit { stack := leaving.reverse } = (final, result) := by
  have all (popped search ending) (moment : Moment graph start popped search ending) :
      Rooted graph start popped search ∧ popped.length ≤ graph.dependencies.length := by
    obtain ⟨_, rooted⟩ := moment.rooted sound holds
    exact ⟨rooted, le_trans (Nat.le_add_right _ _) rooted.length_popped_le⟩
  have leaves := leaving_of_holds sound holds
  obtain ⟨popped, final, ending, result, _, last, stops, same⟩ :=
    (Moment.begun leaves).exists_last sound holds
  simp only [List.length_nil, Nat.zero_add] at same
  refine ⟨all, popped, final, ending, result, last, stops, ?_, fun leaving kept limit enough => ?_⟩
  · have few := (all popped final ending last).2
    have square := Nat.le_mul_self (graph.dependencies.length + 1)
    rw [search, leaves]
    exact same _ (by rw [stepLimit]; omega)
  · obtain rfl := Except.ok.inj (leaves.symm.trans kept)
    exact same limit enough

/-- The attribute `a` leads to a cycle over the child that it is not on itself. -/
def cycleAhead : RuleGraph where
  rule := ⟨[
    { name := "S", attributes := ⟨[("a", { dependencies := .ofList [.unresolved ⟨0, "a"⟩ ⟨0, "b"⟩] }),
      ("b", { dependencies := .ofList [.unresolved ⟨0, "b"⟩ ⟨1, "i"⟩] })]⟩ },
    { name := "A", attributes := ⟨[("i", {}),
      ("s", { dependencies := .ofList [.unresolved ⟨1, "s"⟩ ⟨0, "b"⟩] })]⟩ }]⟩
  redecorated := [.unresolved ⟨1, "i"⟩ ⟨1, "s"⟩]

private theorem sound_cycleAhead : cycleAhead.Sound := by
  have inside : ∀ d ∈ cycleAhead.dependencies,
      d.1.source ∈ cycleAhead.attributes ∧ d.1.target ∈ cycleAhead.attributes := by decide
  refine ⟨⟨fun place symbol found => ?_, fun d member => ?_⟩, fun d member => ?_, fun d member => ?_⟩
  · match place with
    | 0 =>
      obtain rfl := Option.some.inj found
      exact ⟨by decide, by decide⟩
    | 1 =>
      obtain rfl := Option.some.inj found
      exact ⟨by decide, by decide⟩
  · exact mem_attributes.mp (inside d (List.mem_append_left _ member)).2
  · exact mem_attributes.mp (inside d (List.mem_append_right _ member)).1
  · exact mem_attributes.mp (inside d (List.mem_append_right _ member)).2

theorem search_rooted_cycleAhead : cycleAhead.Sound ∧ cycleAhead.rule.Holds ⟨0, "a"⟩ ∧
    ∃ popped final, Moment cycleAhead ⟨0, "a"⟩ popped final none ∧
      Rooted cycleAhead ⟨0, "a"⟩ popped final ∧ final.stack = [] ∧
      popped.length = cycleAhead.dependencies.length ∧
      final.visited = [⟨1, "s"⟩, ⟨1, "i"⟩, ⟨0, "b"⟩] ∧
      Ascends final.parents ⟨1, "s"⟩ [⟨1, "i"⟩, ⟨0, "b"⟩, ⟨0, "a"⟩] := by
  have holds : cycleAhead.rule.Holds ⟨0, "a"⟩ := mem_attributes.mp (by decide)
  refine ⟨sound_cycleAhead, holds, ?_⟩
  obtain ⟨all, popped, final, ending, result, last, stops, found, _⟩ :=
    search_rooted sound_cycleAhead holds
  obtain ⟨exhausted, empty, visited, back, pushed⟩ :
      result = .exhausted ∧ final.stack = [] ∧
        final.visited = [⟨1, "s"⟩, ⟨1, "i"⟩, ⟨0, "b"⟩] ∧
        ancestors final.parents final.parents.length ⟨1, "s"⟩ = [⟨1, "i"⟩, ⟨0, "b"⟩, ⟨0, "a"⟩] ∧
        (cycleAhead.leavingAny (final.visited ++ [⟨0, "a"⟩])).length = 4 := by
    obtain ⟨rfl, rfl⟩ := Prod.mk.inj found
    decide
  subst exhausted
  cases stops
  obtain ⟨rooted, _⟩ := all popped final none last
  obtain ⟨way, ascends, _, _, ancestors⟩ := rooted.ways ⟨1, "s"⟩ (by simp [visited])
  have length := rooted.pushed.length_eq
  rw [empty, List.append_nil, pushed] at length
  rw [ancestors _ le_rfl] at back
  exact ⟨popped, final, last, rooted, empty, length, visited, back ▸ ascends⟩

end RuleGraph
end AttributeGrammar
