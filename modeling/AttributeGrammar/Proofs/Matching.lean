import AttributeGrammar.Proofs.Analysis.Correspondence
import AttributeGrammar.Proofs.Locality
import AttributeGrammar.Proofs.Positions
import Mathlib

/-! What reconciliation makes of drafts that correspond.
The attributes of a symbol are collected from all rules and then sorted, so the order in which they were
declared is lost. With the same attributes at the same places, the same edges are resolved alike.
-/
namespace AttributeGrammar

namespace Symbol
variable {before after : Symbol}

private theorem CompletedTo.indirect_iff (completed : before.CompletedTo after) (direct : before.Direct)
    (distinct : after.attributes.keys.Nodup) {entry : String × Attribute}
    (member : entry ∈ after.attributes.entries) :
    entry.2.indirect = true ↔ entry.1 ∉ before.attributes.keys := by
  rw [← completed.direct_iff direct distinct, OrderedMap.get?_of_mem distinct member]
  simp

end Symbol

namespace Rule

theorem holds_iff {rule : Rule} {place : Nat} {symbol : Symbol}
    (found : rule.symbols[place]? = some symbol) {name : String} :
    rule.Holds ⟨place, name⟩ ↔ name ∈ symbol.attributes.keys := by
  constructor
  · rintro ⟨here, other, present, index, member⟩
    obtain rfl : place = here := by simpa using index
    obtain rfl : symbol = other := by simpa [found] using present
    exact member
  · exact fun member => ⟨place, symbol, found, rfl, member⟩

theorem PlacesAt.unique {rule : Rule} (sound : rule.Sound) {c : Coordinate} {here there : Nat}
    (first : rule.PlacesAt c here) (second : rule.PlacesAt c there) : here = there := by
  obtain ⟨place, symbol, found, index, name⟩ := first
  obtain ⟨same, again, present, equal, also⟩ := second
  obtain rfl : place = same := by omega
  obtain rfl : symbol = again := by simpa [found] using present
  have inside := (List.getElem?_eq_some_iff.mp name).1
  exact (List.getElem?_inj inside (sound.placed place symbol found).distinct).mp
    (name.trans also.symm)

/-- An attribute has one place, so a dependency is resolved in one way. -/
theorem Resolves.unique {rule : Rule} (sound : rule.Sound) {d other : Dependency}
    (resolves : rule.Resolves d) (resolvesOther : rule.Resolves other) (edge : other.1 = d.1) :
    other = d := by
  obtain ⟨source, target, positions, fromSource, toTarget⟩ := resolves
  obtain ⟨otherSource, otherTarget, otherPositions, fromOther, toOther⟩ := resolvesOther
  rw [edge] at fromOther toOther
  refine Prod.ext edge ?_
  rw [positions, otherPositions, fromSource.unique sound fromOther, toTarget.unique sound toOther]

def attributeLists (rule : Rule) : List (List String) :=
  rule.symbols.map fun symbol => symbol.attributes.keys

def indirectFlags (rule : Rule) : List (List Bool) :=
  rule.symbols.map fun symbol => symbol.attributes.values.map Attribute.indirect

/-- The rules are the same but for the order of their dependencies. -/
structure Matches (left right : Rule) : Prop where
  names : left.symbolNames = right.symbolNames
  attributes : left.attributeLists = right.attributeLists
  indirect : left.indirectFlags = right.indirectFlags
  dependencies : ∀ d, d ∈ left.declared ↔ d ∈ right.declared

variable {left right : Rule}

private theorem symbol_of_keys (same : left.attributeLists = right.attributeLists) {place : Nat}
    {symbol : Symbol} (found : left.symbols[place]? = some symbol) :
    ∃ other, right.symbols[place]? = some other ∧
      other.attributes.keys = symbol.attributes.keys := by
  have keys := congrArg (·[place]?) same
  simp only [attributeLists, List.getElem?_map, found, Option.map_some] at keys
  simpa [eq_comm] using keys

private theorem holds_of_keys (same : left.attributeLists = right.attributeLists) {c : Coordinate}
    (holds : left.Holds c) : right.Holds c := by
  obtain ⟨place, symbol, found, index, member⟩ := holds
  obtain ⟨other, there, keys⟩ := symbol_of_keys same found
  exact ⟨place, other, there, index, keys ▸ member⟩

private theorem resolves_of_keys (same : left.attributeLists = right.attributeLists) {d : Dependency}
    (resolves : left.Resolves d) : right.Resolves d := by
  have places {c : Coordinate} {position : Nat} (placed : left.PlacesAt c position) :
      right.PlacesAt c position := by
    obtain ⟨place, symbol, found, index, name⟩ := placed
    obtain ⟨other, there, keys⟩ := symbol_of_keys same found
    exact ⟨place, other, there, index, keys ▸ name⟩
  obtain ⟨source, target, positions, fromSource, toTarget⟩ := resolves
  exact ⟨source, target, positions, places fromSource, places toTarget⟩

theorem Matches.corresponds (same : left.Matches right) : left.Corresponds right := by
  refine ⟨same.names, fun c => ⟨holds_of_keys same.attributes, holds_of_keys same.attributes.symm⟩,
    fun edge => ?_⟩
  simp only [List.mem_map, same.dependencies]

theorem Matches.elementCount_eq (same : left.Matches right) :
    left.elementCount = right.elementCount := by
  have count (rule : Rule) : rule.elementCount =
      rule.attributeLists.foldl (fun count keys => count + (keys.length + 1)) 0 := by
    simp [elementCount, attributeLists, List.foldl_map, OrderedMap.keys, OrderedMap.size]
  rw [count, count, same.attributes]

/-- What reconciliation keeps of a drafted rule. -/
structure ReconciledTo (draft rule : Rule) : Prop where
  direct : ∀ symbol ∈ draft.symbols, symbol.Direct
  alike : draft.Alike rule
  completed : List.Forall₂ Symbol.CompletedTo draft.symbols rule.symbols
  sound : rule.Sound
  located : rule.Located

variable {draft otherDraft rule other : Rule}

open scoped Classical in
private theorem ReconciledTo.indirect_eq (reconciled : draft.ReconciledTo rule) {place : Nat}
    {symbol : Symbol} (found : rule.symbols[place]? = some symbol) :
    symbol.attributes.values.map Attribute.indirect =
      symbol.attributes.keys.map fun name => decide (¬ draft.Holds ⟨place, name⟩) := by
  obtain ⟨before, present, completed⟩ := Sequence.before_of_getElem? reconciled.completed found
  rw [OrderedMap.values, OrderedMap.keys, List.map_map, List.map_map]
  refine List.map_congr_left fun entry member => ?_
  rw [Bool.eq_iff_iff, Function.comp_apply, Function.comp_apply, decide_eq_true_iff, holds_iff present]
  exact completed.indirect_iff (reconciled.direct before (List.mem_of_getElem? present))
    (reconciled.sound.placed place symbol found).distinct member

theorem Corresponds.dependency (same : draft.Corresponds otherDraft)
    (reconciled : draft.ReconciledTo rule) (reconciledOther : otherDraft.ReconciledTo other)
    (keys : rule.attributeLists = other.attributeLists) {d : Dependency}
    (member : d ∈ rule.declared) : d ∈ other.declared := by
  have declared : d.1 ∈ other.declared.map Prod.fst := by
    rw [← reconciledOther.alike.mem_declared_iff, ← same.edges, reconciled.alike.mem_declared_iff]
    exact List.mem_map_of_mem member
  obtain ⟨counterpart, present, edge⟩ := List.mem_map.mp declared
  have resolves := resolves_of_keys keys (reconciled.located.resolves member)
  rw [← resolves.unique reconciledOther.sound (reconciledOther.located.resolves present) edge]
  exact present

theorem Corresponds.matches (same : draft.Corresponds otherDraft)
    (reconciled : draft.ReconciledTo rule) (reconciledOther : otherDraft.ReconciledTo other)
    (keys : rule.attributeLists = other.attributeLists) : rule.Matches other := by
  classical
  refine ⟨?_, keys, ?_, fun d => ⟨same.dependency reconciled reconciledOther keys,
    same.symm.dependency reconciledOther reconciled keys.symm⟩⟩
  · exact reconciled.alike.names.symm.trans (same.names.trans reconciledOther.alike.names)
  · apply Sequence.map_eq_of_forall₂ (Sequence.forall₂_of_getElem? ?_ ?_)
    · simpa [attributeLists] using (congrArg List.length keys).symm
    · intro place last first there here
      obtain ⟨counterpart, found, equal⟩ := symbol_of_keys keys here
      obtain rfl : last = counterpart := by simpa [there] using found
      rw [reconciled.indirect_eq here, reconciledOther.indirect_eq there, equal]
      simp only [same.holds]

end Rule

namespace Grammar
variable {draft grammar otherDraft other : Grammar}

/-- What reconciliation makes of the grammar that the rows put together. -/
structure ReconciledTo (draft grammar : Grammar) : Prop where
  drafted : draft.Drafted
  direct : ∀ rule ∈ draft.rules, ∀ symbol ∈ rule.symbols, symbol.Direct
  ready : grammar.Ready
  resolved : List.Forall₂ Rule.ResolvesTo draft.collect.complete.rules grammar.rules
  symbolNames : grammar.symbolNames = draft.symbolNames
  nonterminalNames : grammar.nonterminalNames = draft.nonterminalNames
  terminalNames : grammar.terminalNames =
    draft.symbolNames.filter fun name => !draft.nonterminalNames.contains name
  attributeNames : grammar.attributeNames = draft.attributeNames
  attributesOf : ∀ symbol, grammar.attributesOf symbol = draft.collect.attributesOf symbol
  elementCounts : grammar.elementCounts = grammar.rules.map Rule.elementCount

theorem reconciledTo_of_done (drafted : draft.Drafted)
    (direct : ∀ rule ∈ draft.rules, ∀ symbol ∈ rule.symbols, symbol.Direct)
    (reconciled : draft.reconcile = .done grammar) : draft.ReconciledTo grammar := by
  obtain ⟨final, done, ready, _, attributeNames, resolved⟩ := ready_reconcile drafted
  obtain rfl := Outcome.done.inj (reconciled.symm.trans done)
  obtain ⟨rules, _, done⟩ := reconcile_drafted drafted
  obtain rfl := Outcome.done.inj (reconciled.symm.trans done)
  exact ⟨drafted, direct, ready, resolved, rfl, rfl, rfl, attributeNames, fun _ => rfl, rfl⟩

theorem FromRows.direct {configuration : Configuration} {rows : List (List Char)}
    (shows : FromRows configuration rows draft) :
    ∀ rule ∈ draft.rules, ∀ symbol ∈ rule.symbols, symbol.Direct := by
  intro rule kept
  obtain ⟨_, _, _, declares⟩ := shows.exists_declares kept
  exact declares.direct

theorem ReconciledTo.rule (reconciled : draft.ReconciledTo grammar) {number : Nat} {old : Rule}
    (found : draft.rules[number]? = some old) :
    ∃ rule, grammar.rules[number]? = some rule ∧ old.ReconciledTo rule := by
  obtain ⟨rule, there, alike⟩ := Sequence.after_of_getElem?
    (alike_reconcile reconciled.drafted reconciled.ready reconciled.resolved) found
  obtain ⟨_, present, completed⟩ :=
    Sequence.after_of_getElem? (completedTo_reconcile reconciled.resolved) found
  obtain rfl := Option.some.inj (there.symm.trans present)
  obtain ⟨_, _, resolves⟩ := Sequence.before_of_getElem? reconciled.resolved there
  have sound := reconciled.ready.sound rule (List.mem_of_getElem? there)
  exact ⟨rule, there, reconciled.direct old (List.mem_of_getElem? found), alike, completed, sound,
    resolves.located sound⟩

theorem ReconciledTo.mem_attributesOf (reconciled : draft.ReconciledTo grammar)
    {symbol name : String} : name ∈ grammar.attributesOf symbol ↔
      ∃ rule ∈ draft.rules, ∃ occurrence ∈ rule.symbols,
        occurrence.name = symbol ∧ name ∈ occurrence.attributes.keys := by
  rw [reconciled.attributesOf]
  change name ∈ ((List.foldl collectAttributes ∅ _).get? symbol).getD [] ↔ _
  rw [mem_collectAttributes]
  simp only [OrderedMap.get?_empty, Option.getD_none, List.not_mem_nil, false_or, List.mem_flatMap]
  constructor
  · rintro ⟨occurrence, ⟨rule, kept, occurs⟩, has⟩
    exact ⟨rule, kept, occurrence, occurs, has⟩
  · rintro ⟨rule, kept, occurrence, occurs, has⟩
    exact ⟨occurrence, ⟨rule, kept, occurs⟩, has⟩

private theorem Corresponds.declares_attribute (same : draft.Corresponds otherDraft)
    {symbol name : String}
    (declared : ∃ rule ∈ draft.rules, ∃ occurrence ∈ rule.symbols,
      occurrence.name = symbol ∧ name ∈ occurrence.attributes.keys) :
    ∃ rule ∈ otherDraft.rules, ∃ occurrence ∈ rule.symbols,
      occurrence.name = symbol ∧ name ∈ occurrence.attributes.keys := by
  obtain ⟨rule, kept, occurrence, occurs, rfl, member⟩ := declared
  obtain ⟨counterpart, present, rules⟩ := same.forth rule kept
  obtain ⟨place, found⟩ := List.mem_iff_getElem?.mp occurs
  obtain ⟨symbol, there, named⟩ := rules.symbol found
  have holds := (rules.holds _).mp ((Rule.holds_iff found).mpr member)
  exact ⟨counterpart, present, symbol, List.mem_of_getElem? there, named,
    (Rule.holds_iff there).mp holds⟩

theorem Corresponds.hasAttribute (same : draft.Corresponds otherDraft) {name : String}
    (has : draft.HasAttribute name) : otherDraft.HasAttribute name := by
  obtain ⟨rule, kept, symbol, member, present⟩ := has
  obtain ⟨counterpart, there, occurrence, occurs, _, declared⟩ :=
    same.declares_attribute ⟨rule, kept, symbol, member, rfl, present⟩
  exact ⟨counterpart, there, occurrence, occurs, declared⟩

section
variable (reconciled : draft.ReconciledTo grammar) (reconciledOther : otherDraft.ReconciledTo other)
include reconciled reconciledOther

/-- The attributes of a symbol are collected in another order, but then sorted. -/
theorem Corresponds.sorted_attributesOf (same : draft.Corresponds otherDraft) (symbol : String) :
    Text.sorted (grammar.attributesOf symbol) = Text.sorted (other.attributesOf symbol) := by
  have perm : (grammar.attributesOf symbol).Perm (other.attributesOf symbol) := by
    have distinct := nodup_attributesOf_collect draft symbol
    have distinctOther := nodup_attributesOf_collect otherDraft symbol
    rw [← reconciled.attributesOf] at distinct
    rw [← reconciledOther.attributesOf] at distinctOther
    rw [List.perm_ext_iff_of_nodup distinct distinctOther]
    intro name
    rw [reconciled.mem_attributesOf, reconciledOther.mem_attributesOf]
    exact ⟨same.declares_attribute, same.symm.declares_attribute⟩
  have sorted := (List.mergeSort_perm _ Text.inOrder).trans
    (perm.trans (List.mergeSort_perm _ Text.inOrder).symm)
  exact eq_of_perm_of_pairwise sorted (pairwise_sorted _) (pairwise_sorted _)

private theorem Corresponds.attributeLists_eq (same : draft.Corresponds otherDraft) {left right : Rule}
    (kept : left ∈ grammar.rules) (keptOther : right ∈ other.rules)
    (names : left.symbolNames = right.symbolNames) : left.attributeLists = right.attributeLists := by
  have lists {grammar : Grammar} (ready : grammar.Ready) {rule : Rule} (kept : rule ∈ grammar.rules) :
      rule.attributeLists =
        rule.symbolNames.map fun name => Text.sorted (grammar.attributesOf name) := by
    rw [Rule.symbolNames, List.map_map]
    exact List.map_congr_left fun symbol member => ready.uniform rule kept symbol member
  rw [lists reconciled.ready kept, lists reconciledOther.ready keptOther, names]
  simp only [same.sorted_attributesOf reconciled reconciledOther]

/-- Rules that come from corresponding drafts match. -/
theorem Corresponds.matches (same : draft.Corresponds otherDraft) {old otherOld : Rule}
    (rules : old.Corresponds otherOld) {number otherNumber : Nat}
    (found : draft.rules[number]? = some old)
    (foundOther : otherDraft.rules[otherNumber]? = some otherOld) : ∃ rule otherRule,
      grammar.rules[number]? = some rule ∧ other.rules[otherNumber]? = some otherRule ∧
        rule.Matches otherRule := by
  obtain ⟨rule, present, origin⟩ := reconciled.rule found
  obtain ⟨otherRule, presentOther, originOther⟩ := reconciledOther.rule foundOther
  have names : rule.symbolNames = otherRule.symbolNames :=
    origin.alike.names.symm.trans (rules.names.trans originOther.alike.names)
  have lists := same.attributeLists_eq reconciled reconciledOther (List.mem_of_getElem? present)
    (List.mem_of_getElem? presentOther) names
  exact ⟨rule, otherRule, present, presentOther, rules.matches origin originOther lists⟩

private theorem Corresponds.forth_of_drafts (same : draft.Corresponds otherDraft) :
    ∀ rule ∈ grammar.rules, ∃ counterpart ∈ other.rules, rule.Corresponds counterpart := by
  intro rule kept
  obtain ⟨number, found⟩ := List.mem_iff_getElem?.mp kept
  obtain ⟨old, there, _⟩ := Sequence.before_of_getElem?
    (completedTo_reconcile reconciled.resolved) found
  obtain ⟨otherOld, present, rules⟩ := same.forth old (List.mem_of_getElem? there)
  obtain ⟨otherNumber, foundOther⟩ := List.mem_iff_getElem?.mp present
  obtain ⟨left, right, here, counterpart, matching⟩ :=
    same.matches reconciled reconciledOther rules there foundOther
  obtain rfl := Option.some.inj (found.symm.trans here)
  exact ⟨right, List.mem_of_getElem? counterpart, matching.corresponds⟩

theorem Corresponds.of_drafts (same : draft.Corresponds otherDraft) : grammar.Corresponds other :=
  ⟨same.forth_of_drafts reconciled reconciledOther,
    same.symm.forth_of_drafts reconciledOther reconciled⟩

end

end Grammar
end AttributeGrammar
