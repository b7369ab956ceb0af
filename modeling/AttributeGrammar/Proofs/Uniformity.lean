import AttributeGrammar.Proofs.OrderIndependence
import Mathlib

/-! All occurrences of a symbol have the same attributes.
What is declared at any of them is added at the others, and the attributes of each are sorted. The row of
an occurrence has its say about the attributes that it declares there. A second reconciliation finds
nothing to add, nothing to sort and every place as it was resolved.
-/
namespace AttributeGrammar
open Text

namespace Symbol

/-- The attributes before as they were declared, and others that are indirect and depend on nothing. -/
structure MergedTo (before after : Symbol) : Prop where
  name : after.name = before.name
  own : ∀ name old, before.attributes.get? name = some old → ∃ new,
    after.attributes.get? name = some new ∧ new.indirect = false ∧ old.indirect = false ∧
      new.dependencies.keys = old.dependencies.keys
  others : ∀ name new, after.attributes.get? name = some new →
    before.attributes.get? name = none → new = { indirect := true }

variable {before after symbol : Symbol}

private theorem CompletedTo.mergedTo (completed : before.CompletedTo after) (direct : before.Direct)
    (distinct : after.attributes.keys.Nodup) (name : after.name = before.name) :
    before.MergedTo after := by
  refine ⟨name, fun name old found => ?_, fun name new found absent => ?_⟩
  · have member := OrderedMap.mem_of_get? found
    obtain ⟨⟨_, new⟩, present, rfl, indirect, keys⟩ := completed.kept _ member
    have plain := (direct _ member).1
    exact ⟨new, OrderedMap.get?_of_mem distinct present, indirect.trans plain, plain, keys⟩
  · rcases completed.origin _ (OrderedMap.mem_of_get? found) with
      ⟨old, present, same, _⟩ | ⟨indirect, keys⟩
    · obtain rfl : name = old.1 := same
      exact absurd (OrderedMap.mem_keys_of_mem present) (OrderedMap.get?_eq_none_iff.mp absent)
    · obtain ⟨⟨entries⟩, _⟩ := new
      obtain rfl : entries = [] := List.map_eq_nil_iff.mp keys
      obtain rfl : _ = true := indirect
      rfl

/-- Nothing is missing of attributes that are all there, and they are sorted. -/
theorem complete_eq_self {names : List String} (ascending : symbol.attributes.keys.Pairwise (· < ·))
    (all : names ⊆ symbol.attributes.keys) : symbol.complete names = symbol := by
  have missing : names.filter (fun name => !symbol.attributes.contains name) = [] := by
    rw [List.filter_eq_nil_iff]
    intro name member
    rw [OrderedMap.contains_iff.mpr (all member)]
    decide
  have sorted : symbol.attributes.entries.Pairwise fun left right =>
      Text.inOrder left.1 right.1 = true :=
    (List.pairwise_map.mp ascending).imp fun before => decide_eq_true (le_of_lt before)
  rw [complete, missing, List.map_nil, List.append_nil, OrderedMap.sort,
    List.mergeSort_of_pairwise sorted]

end Symbol

namespace Rule
variable {draft rule other : Rule}

private theorem ReconciledTo.mergedTo (reconciled : draft.ReconciledTo rule) :
    List.Forall₂ Symbol.MergedTo draft.symbols rule.symbols := by
  refine Sequence.forall₂_of_getElem? reconciled.completed.length_eq fun place old new found there => ?_
  obtain ⟨same, present, completed⟩ := Sequence.after_of_getElem? reconciled.completed found
  obtain rfl := Option.some.inj (there.symm.trans present)
  have name := congrArg (·[place]?) reconciled.alike.names
  simp only [symbolNames, List.getElem?_map, found, there, Option.map_some, Option.some.injEq] at name
  exact completed.mergedTo (reconciled.direct old (List.mem_of_getElem? found))
    (reconciled.sound.placed place new there).distinct name.symm

private theorem ResolvesEntry.eq_of_located (sound : rule.Sound) (located : rule.Located)
    {place position : Nat}
    {symbol : Symbol} (found : rule.symbols[place]? = some symbol) {old new : String × Attribute}
    (present : symbol.attributes.entries[position]? = some old)
    (resolves : rule.ResolvesEntry position old new) : new = old := by
  have dependencies : old.2.dependencies.entries = new.2.dependencies.entries := by
    rw [← List.forall₂_eq_eq_eq]
    refine (Sequence.forall₂_members resolves.dependencies).imp fun d resolved both => ?_
    obtain ⟨member, _, target, toTarget, rfl⟩ := both
    obtain ⟨_, goal, positions, toGoal⟩ := located place symbol position old found present d member
    obtain rfl := toTarget.unique sound toGoal
    exact Prod.ext rfl positions
  obtain ⟨name, ⟨entries⟩, indirect⟩ := old
  obtain ⟨_, ⟨_⟩, _⟩ := new
  obtain ⟨rfl, rfl, _⟩ := resolves
  obtain rfl : entries = _ := dependencies
  rfl

private theorem ResolvesSymbol.eq_of_located (sound : rule.Sound) (located : rule.Located) {place : Nat}
    {old new : Symbol} (found : rule.symbols[place]? = some old)
    (resolves : rule.ResolvesSymbol old new) : new = old := by
  have entries : old.attributes.entries = new.attributes.entries := by
    rw [← List.forall₂_eq_eq_eq]
    refine Sequence.forall₂_of_getElem? (by simpa using resolves.entries.length_eq)
      fun position entry resolved present there => ?_
    have numbered : old.attributes.entries.zipIdx[position]? = some (entry, position) := by
      simp [present]
    obtain ⟨same, here, resolvesEntry⟩ := Sequence.after_of_getElem? resolves.entries numbered
    obtain rfl := Option.some.inj (there.symm.trans here)
    exact (resolvesEntry.eq_of_located sound located found present).symm
  obtain ⟨_, ⟨_⟩⟩ := old
  obtain ⟨_, ⟨_⟩⟩ := new
  rw [Symbol.mk.injEq, OrderedMap.mk.injEq]
  exact ⟨resolves.name, entries.symm⟩

/-- The places in a located rule are the only ones that its dependencies can be resolved to. -/
theorem ResolvesTo.eq_of_located (sound : rule.Sound) (located : rule.Located)
    (resolves : rule.ResolvesTo other) : other = rule := by
  have symbols : rule.symbols = other.symbols := by
    rw [← List.forall₂_eq_eq_eq]
    refine Sequence.forall₂_of_getElem? resolves.length_eq fun place old new found there => ?_
    obtain ⟨same, here, resolvesSymbol⟩ := Sequence.after_of_getElem? resolves found
    obtain rfl := Option.some.inj (there.symm.trans here)
    exact (resolvesSymbol.eq_of_located sound located found).symm
  obtain ⟨_⟩ := rule
  obtain ⟨_⟩ := other
  obtain rfl := symbols
  rfl

theorem elementCount_eq (rule : Rule) : rule.elementCount =
    rule.symbols.length + (rule.symbols.map fun symbol => symbol.attributes.size).sum := by
  have counted (symbols : List Symbol) (count : Nat) :
      symbols.foldl (fun count symbol => count + (symbol.attributes.size + 1)) count =
        count + (symbols.length + (symbols.map fun symbol => symbol.attributes.size).sum) := by
    induction symbols generalizing count with
    | nil => rfl
    | cons symbol rest ih =>
      rw [List.foldl_cons, ih, List.length_cons, List.map_cons, List.sum_cons]
      omega
  rw [elementCount, counted, Nat.zero_add]

end Rule

namespace Grammar
variable {configuration : Configuration} {draft grammar : Grammar}

def occurrences (grammar : Grammar) : List Symbol := grammar.rules.flatMap Rule.symbols

/-- The attribute is declared for the symbol at one of its occurrences. -/
def DeclaresFor (grammar : Grammar) (symbol name : String) : Prop :=
  ∃ occurrence ∈ grammar.occurrences, occurrence.name = symbol ∧ name ∈ occurrence.attributes.keys

/-- The occurrences of each symbol have the attributes declared at any of them, in ascending order. -/
structure UnifiedTo (draft grammar : Grammar) : Prop where
  merged : List.Forall₂ (fun old rule : Rule => List.Forall₂ Symbol.MergedTo old.symbols rule.symbols)
    draft.rules grammar.rules
  same : ∀ symbol ∈ grammar.occurrences, ∀ other ∈ grammar.occurrences,
    symbol.name = other.name → symbol.attributes.keys = other.attributes.keys
  ascending : ∀ symbol ∈ grammar.occurrences, symbol.attributes.keys.Pairwise (· < ·)
  declared : ∀ symbol ∈ grammar.occurrences, ∀ name,
    name ∈ symbol.attributes.keys ↔ draft.DeclaresFor symbol.name name
  listed : ∀ symbol name, name ∈ grammar.attributesOf symbol ↔ draft.DeclaresFor symbol name
  counted : grammar.elementCounts = grammar.rules.map fun rule =>
    rule.symbols.length + (rule.symbols.map fun symbol => symbol.attributes.size).sum

private theorem Ready.keys_of_mem (ready : grammar.Ready) {symbol : Symbol}
    (occurs : symbol ∈ grammar.occurrences) :
    symbol.attributes.keys = Text.sorted (grammar.attributesOf symbol.name) := by
  obtain ⟨rule, kept, member⟩ := List.mem_flatMap.mp occurs
  exact ready.uniform rule kept symbol member

private theorem ReconciledTo.unifiedTo (reconciled : draft.ReconciledTo grammar) :
    draft.UnifiedTo grammar := by
  have ready := reconciled.ready
  have listed (symbol name : String) :
      name ∈ grammar.attributesOf symbol ↔ draft.DeclaresFor symbol name := by
    rw [reconciled.mem_attributesOf, DeclaresFor]
    simp only [occurrences, List.mem_flatMap]
    constructor
    · rintro ⟨rule, kept, occurrence, occurs, has⟩
      exact ⟨occurrence, ⟨rule, kept, occurs⟩, has⟩
    · rintro ⟨occurrence, ⟨rule, kept, occurs⟩, has⟩
      exact ⟨rule, kept, occurrence, occurs, has⟩
  refine ⟨?_, fun symbol occurs other occursOther same => ?_, fun symbol occurs => ?_,
    fun symbol occurs name => ?_, listed, ?_⟩
  · refine Sequence.forall₂_of_getElem? ?_ fun number old rule found there => ?_
    · exact (completedTo_reconcile reconciled.resolved).length_eq
    · obtain ⟨_, here, rules⟩ := reconciled.rule found
      obtain rfl := Option.some.inj (there.symm.trans here)
      exact rules.mergedTo
  · rw [ready.keys_of_mem occurs, ready.keys_of_mem occursOther, same]
  · obtain ⟨rule, kept, member⟩ := List.mem_flatMap.mp occurs
    exact ready.ordered kept symbol member
  · rw [ready.keys_of_mem occurs, Text.sorted, List.mem_mergeSort, listed]
  · rw [reconciled.elementCounts]
    exact List.map_congr_left fun rule _ => rule.elementCount_eq

/-! ### Reconciling again -/

private theorem mem_attributesOf_collect {symbol name : String} :
    name ∈ grammar.collect.attributesOf symbol ↔ grammar.DeclaresFor symbol name := by
  change name ∈ ((List.foldl collectAttributes ∅ _).get? symbol).getD [] ↔ _
  rw [mem_collectAttributes]
  simp [DeclaresFor, occurrences]

private theorem UnifiedTo.declaresFor_iff (unified : draft.UnifiedTo grammar) {symbol name : String} :
    grammar.DeclaresFor symbol name ↔ draft.DeclaresFor symbol name := by
  constructor
  · rintro ⟨occurrence, occurs, rfl, member⟩
    exact (unified.declared occurrence occurs name).mp member
  · rintro ⟨old, occurs, rfl, member⟩
    obtain ⟨rule, kept, present⟩ := List.mem_flatMap.mp occurs
    obtain ⟨number, found⟩ := List.mem_iff_getElem?.mp kept
    obtain ⟨place, here⟩ := List.mem_iff_getElem?.mp present
    obtain ⟨after, there, symbols⟩ := Sequence.after_of_getElem? unified.merged found
    obtain ⟨new, last, merged⟩ := Sequence.after_of_getElem? symbols here
    obtain ⟨data, looked⟩ := OrderedMap.exists_get? member
    obtain ⟨written, stored, _⟩ := merged.own name data looked
    exact ⟨new, List.mem_flatMap.mpr ⟨after, List.mem_of_getElem? there, List.mem_of_getElem? last⟩,
      merged.name, OrderedMap.mem_keys_of_mem (OrderedMap.mem_of_get? stored)⟩

private theorem UnifiedTo.completeSymbol_eq_self (unified : draft.UnifiedTo grammar) {rule : Rule}
    (kept : rule ∈ grammar.rules) {symbol : Symbol} (member : symbol ∈ rule.symbols) :
    grammar.collect.completeSymbol symbol = symbol := by
  have occurs : symbol ∈ grammar.occurrences := List.mem_flatMap.mpr ⟨rule, kept, member⟩
  rw [(completeSymbol_collect kept member).1]
  refine Symbol.complete_eq_self (unified.ascending symbol occurs) fun name present => ?_
  rw [unified.declared symbol occurs, ← unified.declaresFor_iff]
  exact mem_attributesOf_collect.mp present

private theorem UnifiedTo.rules_complete (unified : draft.UnifiedTo grammar) :
    grammar.collect.complete.rules = grammar.rules := by
  refine (List.map_congr_left fun rule kept => ?_).trans (List.map_id grammar.rules)
  have symbols : rule.symbols.map grammar.collect.completeSymbol = rule.symbols :=
    (List.map_congr_left fun symbol member =>
      unified.completeSymbol_eq_self kept member).trans (List.map_id _)
  rw [symbols]
  rfl

theorem ReconciledTo.located (reconciled : draft.ReconciledTo grammar) {rule : Rule}
    (kept : rule ∈ grammar.rules) : rule.Located := by
  obtain ⟨number, found⟩ := List.mem_iff_getElem?.mp kept
  obtain ⟨_, _, resolves⟩ := Sequence.before_of_getElem? reconciled.resolved found
  exact resolves.located (reconciled.ready.sound rule kept)

/-- Reconciling again collects the attributes again, and that is all that it changes. -/
theorem ReconciledTo.reconcile_again (reconciled : draft.ReconciledTo grammar) :
    grammar.reconcile = .done grammar.collect := by
  obtain ⟨rules, resolved, went⟩ := reconcile_drafted reconciled.ready.toDrafted
  rw [reconciled.unifiedTo.rules_complete] at resolved
  have same : grammar.rules = rules := by
    rw [← List.forall₂_eq_eq_eq]
    refine (Sequence.forall₂_members resolved).imp fun old new both => ?_
    obtain ⟨kept, _, resolves⟩ := both
    exact (resolves.eq_of_located (reconciled.ready.sound old kept) (reconciled.located kept)).symm
  subst same
  have terminals : (grammar.symbolNames.filter fun name => !grammar.nonterminalNames.contains name) =
      grammar.terminalNames := by
    rw [reconciled.symbolNames, reconciled.nonterminalNames, reconciled.terminalNames]
  rw [went, ← reconciled.elementCounts]
  exact congrArg (fun names => Outcome.done { grammar.collect with terminalNames := names }) terminals

private theorem UnifiedTo.mem_collect_iff (unified : draft.UnifiedTo grammar) (symbol name : String) :
    name ∈ grammar.collect.attributesOf symbol ↔ name ∈ grammar.attributesOf symbol := by
  rw [mem_attributesOf_collect, unified.declaresFor_iff, unified.listed]

/-! ### Rows -/

open scoped Classical in
theorem FromRows.holds_iff {rows : List (List Char)} (shows : FromRows configuration rows draft) :
    List.Forall₂ (fun row rule => ∃ left right, KeepsRule row left right ∧
        ∀ c, rule.Holds c ↔ NamesAttribute (wordCount right + 1) row c)
      (rows.filter fun row => ∃ left right, KeepsRule row left right) draft.rules := by
  have filtered : rows.filter (fun row => ∃ left right, KeepsRule row left right) =
      rows.filter fun row => (rowDraft configuration row).rule.isSome := by
    refine List.filter_congr fun row member => ?_
    rw [Bool.eq_iff_iff, decide_eq_true_iff, rule_rowDraft_isSome (shows.calm row member)]
  have made := Sequence.forall₂_filterMap (fun row => (rowDraft configuration row).rule) rows
  rw [← filtered, ← shows.rules] at made
  refine (Sequence.forall₂_members made).imp fun row rule both => ?_
  obtain ⟨present, _, drafted⟩ := both
  obtain ⟨member, keeps⟩ := List.mem_filter.mp present
  obtain ⟨left, right, keeps⟩ := of_decide_eq_true keeps
  obtain ⟨same, found, _, declares, _⟩ := declares_rowDraft (shows.calm row member) keeps
  obtain rfl := Option.some.inj (drafted.symm.trans found)
  exact ⟨left, right, keeps, declares.holds⟩

/-- Where no row has a rule there is nothing to unify. -/
theorem unifiedTo_of_no_rules (ruleless : draft.rules = []) (errors : List GrammarError) :
    draft.UnifiedTo { errors := errors } := by
  constructor <;> simp [ruleless, occurrences, DeclaresFor, attributesOf]

end Grammar

namespace Study
variable {reading : Reading} {text : List Char}

open scoped Classical in
/-- All occurrences of a symbol in the grammar of a text have the same attributes, in ascending order:
those declared for the symbol at any of its occurrences. What the equations of its own row put at an
occurrence is as they put it; the others are indirect and depend on nothing. Reconciling the grammar
again changes nothing but the order in which the attributes are collected. -/
theorem uniform_occurrences (calm : ¬ ReachesLongReference reading.configuration text) :
    ∃ draft grammar, Grammar.ofRows reading.configuration (rows text) = .ok draft ∧
      ofCharacters { reading with analyze := false } text = .ok { grammar := grammar } ∧
      (∀ study, ofCharacters reading text = .ok study → study.grammar = grammar) ∧
      List.Forall₂ (fun row rule => ∃ left right, KeepsRule row left right ∧
          ∀ c, rule.Holds c ↔ NamesAttribute (wordCount right + 1) row c)
        ((rows text).filter fun row => ∃ left right, KeepsRule row left right) draft.rules ∧
      draft.UnifiedTo grammar ∧
      ∃ collected, grammar.reconcile = .done { grammar with attributesBySymbol := collected } ∧
        ∀ symbol name, name ∈ (collected.get? symbol).getD [] ↔ name ∈ grammar.attributesOf symbol := by
  obtain ⟨grammar, parses⟩ := exists_grammar calm
  rcases Grammar.ofRows_cases reading.configuration (rows text) with
    ⟨draft, went, fromRows⟩ | ⟨_, reaches⟩
  · refine ⟨draft, grammar, went, parses.read, fun study => parses.unique, fromRows.holds_iff, ?_⟩
    rcases parses.origin with ⟨blank, rfl⟩ | ⟨filled, _⟩
    · have ruleless : draft.rules = [] := by
        rw [List.eq_nil_iff_forall_not_mem]
        intro rule member
        obtain ⟨number, found⟩ := List.mem_iff_getElem?.mp member
        obtain ⟨row, here, left, right, keeps, _⟩ :=
          Sequence.before_of_getElem? fromRows.holds_iff found
        rw [filled_of_keeps (List.mem_filter.mp (List.mem_of_getElem? here)).1 keeps] at blank
        cases blank
      exact ⟨Grammar.unifiedTo_of_no_rules ruleless _, _, rfl, fun _ _ => Iff.rfl⟩
    · obtain ⟨same, drafted, drafts⟩ := exists_drafts filled parses.read
      obtain rfl := Except.ok.inj (went.symm.trans drafted)
      have reconciled := drafts.reconciledTo
      exact ⟨reconciled.unifiedTo, _, reconciled.reconcile_again, reconciled.unifiedTo.mem_collect_iff⟩
  · exact absurd reaches calm

/-- The two children are the same symbol, and each equation is about another attribute of it. -/
def attributeElsewhere : List Char := "S -> A A : v[0] = b[1]; v[0] = a[2]".toList

theorem uniform_attributeElsewhere : ∃ study rule,
    ofCharacters { roundLimit := 4 } attributeElsewhere = .ok study ∧
      study.grammar.rules = [rule] ∧ rule.symbolNames = ["S", "A", "A"] ∧
      rule.attributeLists = [["v"], ["a", "b"], ["a", "b"]] ∧
      rule.indirectFlags = [[false], [true, false], [false, true]] ∧
      study.grammar.elementCounts = [8] ∧
      ∃ draft : Grammar, draft.UnifiedTo study.grammar := by
  have read : ∃ study rule, ofCharacters { roundLimit := 4 } attributeElsewhere = .ok study ∧
      study.grammar.rules = [rule] ∧ rule.symbolNames = ["S", "A", "A"] ∧
      rule.attributeLists = [["v"], ["a", "b"], ["a", "b"]] ∧
      rule.indirectFlags = [[false], [true, false], [false, true]] ∧
      study.grammar.elementCounts = [8] :=
    ⟨_, _, by cbv, by cbv, by cbv, by cbv, by cbv, by cbv⟩
  obtain ⟨study, rule, read, facts⟩ := read
  obtain ⟨draft, grammar, _, _, same, _, unified, _⟩ := uniform_occurrences (not_reaches_of_ok read)
  obtain rfl : study.grammar = grammar := same study read
  exact ⟨study, rule, read, facts.1, facts.2.1, facts.2.2.1, facts.2.2.2.1, facts.2.2.2.2, draft, unified⟩

end Study
end AttributeGrammar
