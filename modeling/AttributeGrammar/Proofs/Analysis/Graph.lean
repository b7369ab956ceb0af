import AttributeGrammar.Analysis.Search
import AttributeGrammar.Proofs.Grammar.Rule
import Mathlib.Logic.Relation

/-! The graph of a rule in one round, as a relation between attributes.
What starts from an attribute of the rule is found with the attribute, so the graph is nothing but
the dependencies of the rule and those put on its children.
-/
namespace AttributeGrammar

theorem flatMap_eq_of_place {α β : Type} {f : α → List β} {items : List α} {place : Nat} {item : α}
    (found : items[place]? = some item)
    (others : ∀ here other, items[here]? = some other → here ≠ place → f other = []) :
    items.flatMap f = f item := by
  induction items generalizing place with
  | nil => simp at found
  | cons head rest ih =>
    rw [List.flatMap_cons]
    cases place with
    | zero =>
      have same : head = item := by simpa using found
      have silent : rest.flatMap f = [] := by
        rw [List.flatMap_eq_nil_iff]
        intro other member
        obtain ⟨here, present⟩ := List.mem_iff_getElem?.mp member
        exact others (here + 1) other (by simpa using present) (by omega)
      rw [same, silent, List.append_nil]
    | succ place =>
      have silent : f head = [] := others 0 head rfl (by omega)
      rw [silent, List.nil_append]
      apply ih (by simpa using found)
      intro here other present different
      exact others (here + 1) other (by simpa using present) (by omega)

namespace Symbol

/-- A symbol keeps with an attribute all of its dependencies that start from there. -/
theorem PlacedAt.dependencies_from {symbol : Symbol} {place : Nat} (placed : symbol.PlacedAt place)
    {entry : String × Attribute} (member : entry ∈ symbol.attributes.entries) :
    (symbol.attributes.values.flatMap fun data =>
      data.dependencies.entries.filter fun d => d.1.source = ⟨place, entry.1⟩) =
        entry.2.dependencies.entries := by
  obtain ⟨position, present⟩ := List.mem_iff_getElem?.mp member
  have whole : entry.2.dependencies.entries.filter (fun d => d.1.source = ⟨place, entry.1⟩) =
      entry.2.dependencies.entries := by
    rw [List.filter_eq_self]
    intro d stored
    simp [placed.sources entry member d stored]
  rw [OrderedMap.values, List.flatMap_map, flatMap_eq_of_place present, whole]
  intro index other there different
  rw [List.filter_eq_nil_iff]
  intro d stored
  -- Another entry has another name, since the names are distinct.
  have apart : other.1 ≠ entry.1 := by
    intro same
    have left : symbol.attributes.keys[index]? = some entry.1 := by
      simp [OrderedMap.keys, there, same]
    have right : symbol.attributes.keys[position]? = some entry.1 := by
      simp [OrderedMap.keys, present]
    have inside := (List.getElem?_eq_some_iff.mp left).1
    exact different ((List.getElem?_inj inside placed.distinct).mp (left.trans right.symm))
  simp [placed.sources other (List.mem_of_getElem? there) d stored, apart]

theorem PlacedAt.dependencies_elsewhere {symbol : Symbol} {place : Nat}
    (placed : symbol.PlacedAt place) {c : Coordinate} (elsewhere : c.symbolIndex ≠ place) :
    (symbol.attributes.values.flatMap fun data =>
      data.dependencies.entries.filter fun d => d.1.source = c) = [] := by
  rw [List.flatMap_eq_nil_iff]
  intro data stored
  obtain ⟨entry, member, rfl⟩ := List.mem_map.mp stored
  rw [List.filter_eq_nil_iff]
  intro d kept
  have source := placed.sources entry member d kept
  rw [decide_eq_true_eq]
  rintro rfl
  exact elsewhere (by rw [source])

end Symbol

namespace Rule

/-- The declared dependencies that start from an attribute are those kept with it. -/
theorem declared_from {rule : Rule} (sound : rule.Sound) {place : Nat} {symbol : Symbol}
    (found : rule.symbols[place]? = some symbol) {entry : String × Attribute}
    (member : entry ∈ symbol.attributes.entries) :
    rule.declared.filter (fun d => d.1.source = ⟨place, entry.1⟩) =
      entry.2.dependencies.entries := by
  rw [declared, List.filter_flatMap]
  simp only [List.filter_flatMap]
  rw [flatMap_eq_of_place found, (sound.placed place symbol found).dependencies_from member]
  intro index other there different
  exact (sound.placed index other there).dependencies_elsewhere (by simp; omega)

theorem Sound.holds_source {rule : Rule} (sound : rule.Sound) {d : Dependency}
    (member : d ∈ rule.declared) : rule.Holds d.1.source := by
  obtain ⟨place, symbol, found, entry, present, kept⟩ := mem_declared.mp member
  have source := (sound.placed place symbol found).sources entry present d kept
  rw [source]
  exact ⟨place, symbol, found, rfl, OrderedMap.mem_keys_of_mem present⟩

end Rule

namespace RuleGraph

/-- The rule is sound, and what is put on its children joins attributes of the rule. -/
structure Sound (graph : RuleGraph) : Prop where
  rule : graph.rule.Sound
  sources : ∀ d ∈ graph.redecorated, graph.rule.Holds d.1.source
  targets : ∀ d ∈ graph.redecorated, graph.rule.Holds d.1.target

def Leads (graph : RuleGraph) (source target : Coordinate) : Prop :=
  ∃ d ∈ graph.dependencies, d.1.source = source ∧ d.1.target = target

def Cyclic (graph : RuleGraph) : Prop := ∃ c, Relation.TransGen graph.Leads c c

theorem Sound.holds_source {graph : RuleGraph} (sound : graph.Sound) {d : Dependency}
    (member : d ∈ graph.dependencies) : graph.rule.Holds d.1.source :=
  (List.mem_append.mp member).elim sound.rule.holds_source (sound.sources d)

theorem Sound.holds_target {graph : RuleGraph} (sound : graph.Sound) {d : Dependency}
    (member : d ∈ graph.dependencies) : graph.rule.Holds d.1.target :=
  (List.mem_append.mp member).elim (sound.rule.targets d) (sound.targets d)

theorem Sound.holds_of_path {graph : RuleGraph} (sound : graph.Sound) {source target : Coordinate}
    (path : Relation.TransGen graph.Leads source target) :
    graph.rule.Holds source ∧ graph.rule.Holds target := by
  induction path with
  | single edge =>
    obtain ⟨d, member, rfl, rfl⟩ := edge
    exact ⟨sound.holds_source member, sound.holds_target member⟩
  | tail _ edge ih =>
    obtain ⟨d, member, _, rfl⟩ := edge
    exact ⟨ih.1, sound.holds_target member⟩

def dependenciesFrom (graph : RuleGraph) (c : Coordinate) : List Dependency :=
  graph.dependencies.filter fun d => d.1.source = c

@[simp]
theorem mem_dependenciesFrom {graph : RuleGraph} {c : Coordinate} {d : Dependency} :
    d ∈ graph.dependenciesFrom c ↔ d ∈ graph.dependencies ∧ d.1.source = c := by
  simp [dependenciesFrom]

theorem leaving_of_holds {graph : RuleGraph} (sound : graph.Sound) {c : Coordinate}
    (holds : graph.rule.Holds c) : graph.leaving c = .ok (graph.dependenciesFrom c) := by
  obtain ⟨index, name⟩ := c
  obtain ⟨place, symbol, found, rfl, member⟩ := holds
  obtain ⟨data, kept⟩ := OrderedMap.exists_get? member
  have inside : place < graph.rule.symbols.length := (List.getElem?_eq_some_iff.mp found).1
  have stored : graph.rule.attributeAt? ⟨place, name⟩ = some data := by
    simp [Rule.attributeAt?, Sequence.item?_ofNat, found, kept]
  have declared : graph.rule.declared.filter (fun d => d.1.source = ⟨place, name⟩) =
      data.dependencies.entries :=
    Rule.declared_from sound.rule found (OrderedMap.mem_of_get? kept)
  simp only [leaving, Sequence.place?_ofNat, inside, if_true, stored, dependenciesFrom,
    dependencies, List.filter_append, declared]
  congr

theorem mem_attributes {graph : RuleGraph} {c : Coordinate} :
    c ∈ graph.attributes ↔ graph.rule.Holds c := by
  simp only [attributes, List.mem_flatMap, List.mem_map, Prod.exists, List.mem_zipIdx_iff_getElem?]
  constructor
  · rintro ⟨symbol, place, found, name, member, rfl⟩
    exact ⟨place, symbol, found, rfl, member⟩
  · rintro ⟨place, symbol, found, index, member⟩
    exact ⟨symbol, place, found, c.name, member, by rw [← index]⟩

end RuleGraph
end AttributeGrammar
