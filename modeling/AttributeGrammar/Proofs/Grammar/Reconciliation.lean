import AttributeGrammar.Grammar.Reconciliation
import AttributeGrammar.Proofs.Grammar.Draft
import Mathlib.Data.String.Basic

/-! What reconciliation makes of a drafted grammar.
It meets no fault and reports no error. Every occurrence of a symbol ends with the collected
attributes of the symbol in ascending order, and the rules keep their edges.
-/
namespace AttributeGrammar

theorem Text.linear_inOrder : IsLinearOrder String fun left right => Text.inOrder left right = true :=
  Sequence.linear_of_key Function.injective_id decide_eq_true_iff

theorem pairwise_sorted (texts : List String) :
    (Text.sorted texts).Pairwise fun a b => Text.inOrder a b = true :=
  Sequence.pairwise_mergeSort Text.linear_inOrder texts

theorem eq_of_perm_of_pairwise {left right : List String} (perm : left.Perm right)
    (first : left.Pairwise fun a b => Text.inOrder a b = true)
    (second : right.Pairwise fun a b => Text.inOrder a b = true) : left = right :=
  perm.eq_of_pairwise (fun _ _ _ _ => Text.linear_inOrder.antisymm _ _) first second

/-! ### Collecting -/

theorem mem_collectAttributes {symbols : List Symbol} {collected : OrderedMap String (List String)}
    {symbol name : String} :
    name ∈ ((symbols.foldl collectAttributes collected).get? symbol).getD [] ↔
      name ∈ (collected.get? symbol).getD [] ∨
        ∃ occurrence ∈ symbols, occurrence.name = symbol ∧ name ∈ occurrence.attributes.keys := by
  induction symbols generalizing collected with
  | nil => simp
  | cons head rest ih =>
    rw [List.foldl_cons, ih, collectAttributes, OrderedMap.get?_insert]
    by_cases same : symbol = head.name
    · subst same
      simp only [if_true, Option.getD_some, Sequence.mem_addMissing, List.mem_cons, exists_eq_or_imp,
        true_and, or_assoc]
    · have other : head.name ≠ symbol := fun equal => same equal.symm
      simp [same, other]

private theorem nodup_collectAttributes {symbols : List Symbol}
    {collected : OrderedMap String (List String)}
    (distinct : ∀ symbol, ((collected.get? symbol).getD []).Nodup) (symbol : String) :
    (((symbols.foldl collectAttributes collected).get? symbol).getD []).Nodup := by
  induction symbols generalizing collected with
  | nil => exact distinct symbol
  | cons head rest ih =>
    apply ih
    intro symbol
    rw [collectAttributes, OrderedMap.get?_insert]
    split
    · exact Sequence.nodup_addMissing (distinct head.name) _
    · exact distinct symbol

private theorem mem_keys_collectAttributes {symbols : List Symbol}
    {collected : OrderedMap String (List String)} {symbol : String} :
    symbol ∈ (symbols.foldl collectAttributes collected).keys ↔
      symbol ∈ collected.keys ∨ ∃ occurrence ∈ symbols, occurrence.name = symbol := by
  induction symbols generalizing collected with
  | nil => simp
  | cons head rest ih =>
    rw [List.foldl_cons, ih, collectAttributes, OrderedMap.mem_keys_insert]
    simp only [List.mem_cons, exists_eq_or_imp, eq_comm (b := symbol), or_assoc]
    exact or_left_comm

namespace Grammar

/-- The attributes declared for a symbol at any of its occurrences. -/
def attributesOf (grammar : Grammar) (symbol : String) : List String :=
  (grammar.attributesBySymbol.get? symbol).getD []

end Grammar

/-! ### Completing -/

namespace Symbol

theorem mem_complete {names : List String} {symbol : Symbol} {entry : String × Attribute} :
    entry ∈ (symbol.complete names).attributes.entries ↔ entry ∈ symbol.attributes.entries ∨
      entry.1 ∈ names ∧ entry.1 ∉ symbol.attributes.keys ∧ entry.2 = { indirect := true } := by
  obtain ⟨name, data⟩ := entry
  simp only [complete, OrderedMap.sort, List.mem_mergeSort, List.mem_append, List.mem_map,
    List.mem_filter, Prod.mk.injEq, Bool.not_eq_true', ← Bool.not_eq_true, OrderedMap.contains_iff]
  constructor
  · rintro (old | ⟨_, ⟨listed, absent⟩, rfl, rfl⟩)
    · exact Or.inl old
    · exact Or.inr ⟨listed, absent, rfl⟩
  · rintro (old | ⟨listed, absent, rfl⟩)
    · exact Or.inl old
    · exact Or.inr ⟨name, ⟨listed, absent⟩, rfl, rfl⟩

private theorem perm_keys_complete (names : List String) (symbol : Symbol) :
    (symbol.complete names).attributes.keys.Perm (symbol.attributes.keys ++
      names.filter fun name => !symbol.attributes.contains name) := by
  apply (OrderedMap.perm_keys_sort _ _).trans
  simp [OrderedMap.keys, Function.comp_def]

private theorem nodup_keys_complete {names : List String} {symbol : Symbol} (collected : names.Nodup)
    (distinct : symbol.attributes.keys.Nodup) : (symbol.complete names).attributes.keys.Nodup := by
  rw [(perm_keys_complete names symbol).nodup_iff, List.nodup_append]
  refine ⟨distinct, collected.filter _, fun name present other member same => ?_⟩
  have absent := (List.mem_filter.mp member).2
  rw [← same, OrderedMap.contains_iff.mpr present] at absent
  cases absent

/-- A completed symbol has just the collected attributes, in ascending order. -/
theorem keys_complete {names : List String} {symbol : Symbol} (collected : names.Nodup)
    (distinct : symbol.attributes.keys.Nodup) (within : symbol.attributes.keys ⊆ names) :
    (symbol.complete names).attributes.keys = Text.sorted names := by
  have same : (symbol.complete names).attributes.keys.Perm names := by
    rw [List.perm_ext_iff_of_nodup (nodup_keys_complete collected distinct) collected]
    intro name
    rw [(perm_keys_complete names symbol).mem_iff, List.mem_append, List.mem_filter]
    by_cases present : name ∈ symbol.attributes.keys
    · simp [present, within present]
    · have absent : symbol.attributes.contains name = false := by
        rw [← Bool.not_eq_true, OrderedMap.contains_iff]
        exact present
      simp [present, absent]
  apply eq_of_perm_of_pairwise (same.trans (List.mergeSort_perm names _).symm) _
    (pairwise_sorted names)
  rw [complete, OrderedMap.keys_sort]
  exact pairwise_sorted _

private theorem extends_complete {names : List String} (collected : names.Nodup) (symbol : Symbol) :
    symbol.Extends (symbol.complete names) := by
  refine ⟨rfl, fun name member => ?_, nodup_keys_complete collected, fun entry member d kept => ?_⟩
  · exact (perm_keys_complete names symbol).mem_iff.mpr (List.mem_append_left _ member)
  · rcases mem_complete.mp member with old | ⟨_, _, new⟩
    · exact ⟨entry, old, rfl, d, kept, rfl⟩
    · rw [new] at kept
      cases kept

end Symbol
/-! ### Resolving -/

/-- The same attribute with the same edges; only the places of the ends may differ. -/
def SameEdges (before after : String × Attribute) : Prop :=
  after.1 = before.1 ∧ after.2.indirect = before.2.indirect ∧
    after.2.dependencies.keys = before.2.dependencies.keys

def Symbol.SameEdges (before after : Symbol) : Prop :=
  after.name = before.name ∧
    List.Forall₂ AttributeGrammar.SameEdges before.attributes.entries after.attributes.entries

theorem Symbol.SameEdges.keys {before after : Symbol} (same : before.SameEdges after) :
    after.attributes.keys = before.attributes.keys :=
  Sequence.map_eq_of_forall₂ (same.2.imp fun _ _ entry => entry.1)

theorem Symbol.SameEdges.extends {before after : Symbol} (same : before.SameEdges after) :
    before.Extends after := by
  refine ⟨same.1, fun name member => same.keys ▸ member, fun distinct => same.keys ▸ distinct,
    fun entry member d kept => ?_⟩
  obtain ⟨place, found⟩ := List.mem_iff_getElem?.mp member
  obtain ⟨old, present, name, _, edges⟩ := Sequence.before_of_getElem? same.2 found
  have edge : d.1 ∈ old.2.dependencies.keys := edges ▸ OrderedMap.mem_keys_of_mem kept
  obtain ⟨positions, former⟩ := OrderedMap.exists_of_mem_keys edge
  exact ⟨old, List.mem_of_getElem? present, name.symm, _, former, rfl⟩

namespace Rule

/-- The attribute at `position` of a symbol, with its dependencies resolved in the rule. -/
structure ResolvesEntry (rule : Rule) (position : Nat) (before after : String × Attribute) : Prop where
  name : after.1 = before.1
  indirect : after.2.indirect = before.2.indirect
  dependencies : List.Forall₂ (fun d resolved : Dependency => ∃ target : Nat,
    rule.PlacesAt d.1.target target ∧ resolved = d.resolved position target)
      before.2.dependencies.entries after.2.dependencies.entries

structure ResolvesSymbol (rule : Rule) (before after : Symbol) : Prop where
  name : after.name = before.name
  entries : List.Forall₂ (fun old new => rule.ResolvesEntry old.2 old.1 new)
    before.attributes.entries.zipIdx after.attributes.entries

def ResolvesTo (before after : Rule) : Prop :=
  List.Forall₂ before.ResolvesSymbol before.symbols after.symbols

variable {rule before after : Rule}

theorem ResolvesEntry.sameEdges {position : Nat} {old new : String × Attribute}
    (resolves : rule.ResolvesEntry position old new) : SameEdges old new := by
  refine ⟨resolves.name, resolves.indirect, Sequence.map_eq_of_forall₂ ?_⟩
  refine resolves.dependencies.imp fun d resolved found => ?_
  obtain ⟨_, _, rfl⟩ := found
  rfl

theorem ResolvesSymbol.sameEdges {old new : Symbol} (resolves : rule.ResolvesSymbol old new) :
    old.SameEdges new :=
  ⟨resolves.name, Sequence.forall₂_of_zipIdx (resolves.entries.imp fun _ _ entry => entry.sameEdges)⟩

theorem ResolvesTo.sameEdges (resolves : before.ResolvesTo after) :
    List.Forall₂ Symbol.SameEdges before.symbols after.symbols :=
  resolves.imp fun _ _ symbol => symbol.sameEdges

private theorem ResolvesTo.placesAt (resolves : before.ResolvesTo after) {c : Coordinate}
    {position : Nat} (placed : before.PlacesAt c position) : after.PlacesAt c position := by
  obtain ⟨place, symbol, found, index, name⟩ := placed
  obtain ⟨new, present, same⟩ := Sequence.after_of_getElem? resolves.sameEdges found
  exact ⟨place, new, present, index, same.keys ▸ name⟩

/-- Every dependency is kept at the place of its source and resolved to the places of both ends. -/
def Located (rule : Rule) : Prop :=
  ∀ (place : Nat) (symbol : Symbol) (position : Nat) (entry : String × Attribute),
    rule.symbols[place]? = some symbol → symbol.attributes.entries[position]? = some entry →
      ∀ d ∈ entry.2.dependencies.entries, d.1.source = ⟨place, entry.1⟩ ∧ ∃ target : Nat,
        d.2 = ⟨some (position : Int), some (target : Int)⟩ ∧ rule.PlacesAt d.1.target target

theorem ResolvesTo.located (resolves : before.ResolvesTo after) (sound : after.Sound) :
    after.Located := by
  intro place symbol position entry found present d kept
  refine ⟨(sound.placed place symbol found).sources entry (List.mem_of_getElem? present) d kept, ?_⟩
  obtain ⟨former, _, symbols⟩ := Sequence.before_of_getElem? resolves found
  obtain ⟨⟨old, number⟩, there, entries⟩ := Sequence.before_of_getElem? symbols.entries present
  obtain rfl : number = position := by
    simp only [List.getElem?_zipIdx, Option.map_eq_some_iff, Prod.mk.injEq] at there
    omega
  obtain ⟨here, same⟩ := List.mem_iff_getElem?.mp kept
  obtain ⟨was, _, target, places, rfl⟩ := Sequence.before_of_getElem? entries.dependencies same
  exact ⟨target, rfl, resolves.placesAt places⟩

theorem Located.resolves (located : rule.Located) {d : Dependency} (member : d ∈ rule.declared) :
    rule.Resolves d := by
  obtain ⟨place, symbol, found, entry, present, kept⟩ := mem_declared.mp member
  obtain ⟨position, here⟩ := List.mem_iff_getElem?.mp present
  obtain ⟨source, target, positions, places⟩ := located place symbol position entry found here d kept
  refine ⟨position, target, positions, ?_, places⟩
  rw [source]
  exact ⟨place, symbol, found, rfl, by simp [OrderedMap.keys, here]⟩

end Rule

namespace Resolved

/-- Nothing is missing, there is no fault, and the part is what the relation says. -/
structure Whole {Part : Type} (R : Part → Part → Prop) (before : Part) (resolved : Resolved Part) :
    Prop where
  fault : resolved.fault? = none
  missing : resolved.missing = 0
  related : R before resolved.part

private theorem whole_along {Part : Type} {R : Nat → Part → Part → Prop}
    {resolve : Nat → Part → Resolved Part} {parts : List Part}
    (each : ∀ place, ∀ part ∈ parts, Whole (R place) part (resolve place part)) (place : Nat) :
    Whole (fun before after => List.Forall₂ (fun old new => R old.2 old.1 new)
      (before.zipIdx place) after) parts (along resolve place parts) := by
  induction parts generalizing place with
  | nil => exact ⟨rfl, rfl, .nil⟩
  | cons part rest ih =>
    have here := each place part List.mem_cons_self
    have later := ih (fun place other member => each place other (List.mem_cons_of_mem _ member))
      (place + 1)
    simp only [along, here.fault]
    exact ⟨later.fault, by simp [here.missing, later.missing], .cons here.related later.related⟩

private theorem whole_ofDependency {rule : Rule} {d : Dependency} (target : rule.Holds d.1.target)
    (source : Nat) :
    Whole (fun before after => ∃ target : Nat, rule.PlacesAt before.1.target target ∧
      after = before.resolved source target) d (ofDependency rule.symbols source d) := by
  obtain ⟨place, symbol, found, index, member⟩ := target
  obtain ⟨position, indexed⟩ := OrderedMap.exists_indexOf? member
  have item : Sequence.item? rule.symbols d.target.symbolIndex = some symbol := by
    change Sequence.item? rule.symbols d.1.target.symbolIndex = some symbol
    rw [index, Sequence.item?_ofNat, found]
  have inside : symbol.attributes.indexOf? d.target.name = some position := indexed
  rw [ofDependency, item]
  simp only [inside]
  exact ⟨rfl, rfl, position, ⟨place, symbol, found, index, OrderedMap.getElem?_of_indexOf? indexed⟩,
    rfl⟩

private theorem whole_ofAttribute {rule : Rule} {entry : String × Attribute}
    (targets : ∀ d ∈ entry.2.dependencies.entries, rule.Holds d.1.target) (place : Nat) :
    Whole (rule.ResolvesEntry place) entry (ofAttribute rule.symbols place entry) := by
  have whole : Whole _ _ (along (fun _ => ofDependency rule.symbols place) 0 _) :=
    whole_along (fun _ d member => whole_ofDependency (targets d member) place) 0
  simp only [ofAttribute, whole.fault]
  exact ⟨rfl, whole.missing, rfl, rfl, Sequence.forall₂_of_zipIdx whole.related⟩

private theorem whole_ofSymbol {rule : Rule} {symbol : Symbol}
    (targets : ∀ entry ∈ symbol.attributes.entries,
    ∀ d ∈ entry.2.dependencies.entries, rule.Holds d.1.target) :
    Whole rule.ResolvesSymbol symbol (ofSymbol rule.symbols symbol) := by
  have whole : Whole _ _ (along (ofAttribute rule.symbols) 0 symbol.attributes.entries) :=
    whole_along (fun place entry member => whole_ofAttribute (targets entry member) place) 0
  exact ⟨whole.fault, whole.missing, rfl, whole.related⟩

private theorem whole_ofRule {rule : Rule} (sound : rule.Sound) :
    Whole Rule.ResolvesTo rule (ofRule rule) := by
  have each (_ : Nat) : ∀ symbol ∈ rule.symbols,
      Whole rule.ResolvesSymbol symbol (ofSymbol rule.symbols symbol) := by
    intro symbol member
    apply whole_ofSymbol
    intro entry present d kept
    obtain ⟨place, found⟩ := List.mem_iff_getElem?.mp member
    exact sound.targets d (Rule.mem_declared.mpr ⟨place, symbol, found, entry, present, kept⟩)
  have whole := whole_along each 0
  exact ⟨whole.fault, whole.missing, Sequence.forall₂_of_zipIdx whole.related⟩

end Resolved

namespace Grammar

private theorem resolveRules_sound {rules : List Rule} (sound : ∀ rule ∈ rules, rule.Sound)
    (done : List Rule) (grammar : Grammar) : ∃ resolved,
      List.Forall₂ Rule.ResolvesTo rules resolved ∧
      resolveRules done rules grammar = .done { grammar with
        rules := done ++ resolved
        elementCounts := grammar.elementCounts ++ resolved.map Rule.elementCount } := by
  induction rules generalizing done grammar with
  | nil => exact ⟨[], .nil, by simp [resolveRules]⟩
  | cons rule rest ih =>
    have here := Resolved.whole_ofRule (sound rule List.mem_cons_self)
    obtain ⟨resolved, related, went⟩ := ih
      (fun other member => sound other (List.mem_cons_of_mem _ member))
      (done ++ [(Resolved.ofRule rule).part])
      { grammar with elementCounts := grammar.elementCounts ++
          [(Resolved.ofRule rule).part.elementCount] }
    refine ⟨(Resolved.ofRule rule).part :: resolved, .cons here.related related, ?_⟩
    simp only [resolveRules, here.fault, here.missing, List.replicate_zero, List.append_nil, went]
    simp

/-- A grammar that can be analysed: what holds of a drafted grammar, and every occurrence of a
symbol has the same attributes in ascending order. -/
structure Ready (grammar : Grammar) : Prop extends grammar.Drafted where
  uniform : ∀ rule ∈ grammar.rules, ∀ symbol ∈ rule.symbols,
    symbol.attributes.keys = Text.sorted (grammar.attributesOf symbol.name)

theorem leftName?_of_names {before after : Rule}
    (same : after.symbols.map Symbol.name = before.symbols.map Symbol.name) :
    after.leftName? = before.leftName? := by
  rw [Rule.leftName?, Rule.leftName?, Rule.left?, Rule.left?, ← List.head?_map, ← List.head?_map,
    same]

private theorem numbersOf_of_lefts {before after : Grammar}
    (lefts : after.rules.map Rule.leftName? = before.rules.map Rule.leftName?) (name : String) :
    after.numbersOf name = before.numbersOf name := by
  have lookup (grammar : Grammar) (number : Nat) : grammar.rules[number]?.bind Rule.leftName? =
      (grammar.rules.map Rule.leftName?)[number]?.join := by
    rw [List.getElem?_map]
    cases grammar.rules[number]? <;> rfl
  have count : after.rules.length = before.rules.length := by
    simpa using congrArg List.length lefts
  simp only [numbersOf, lookup, lefts, count]

theorem Drafted.extended {before after : Grammar} (drafted : before.Drafted)
    (nonterminals : after.nonterminals = before.nonterminals)
    (names : after.nonterminalNames = before.nonterminalNames)
    (rules : List.Forall₂ (fun old new : Rule => List.Forall₂ Symbol.Extends old.symbols new.symbols)
      before.rules after.rules) : after.Drafted := by
  have left {old new : Rule} (extension : List.Forall₂ Symbol.Extends old.symbols new.symbols) :
      new.leftName? = old.leftName? :=
    leftName?_of_names (Sequence.map_eq_of_forall₂ (extension.imp fun _ _ grown => grown.name))
  have former {new : Rule} (member : new ∈ after.rules) : ∃ old ∈ before.rules,
      List.Forall₂ Symbol.Extends old.symbols new.symbols := by
    obtain ⟨number, found⟩ := List.mem_iff_getElem?.mp member
    obtain ⟨old, present, extension⟩ := Sequence.before_of_getElem? rules found
    exact ⟨old, List.mem_of_getElem? present, extension⟩
  have numbers := numbersOf_of_lefts (Sequence.map_eq_of_forall₂ (rules.imp fun _ _ => left))
  constructor
  · intro rule member
    obtain ⟨old, present, extension⟩ := former member
    exact (drafted.sound old present).extended extension
  · intro rule member
    obtain ⟨old, present, extension⟩ := former member
    rw [left extension, names]
    exact drafted.registered old present
  · rw [nonterminals]
    exact drafted.distinct
  · intro name member
    rw [nonterminals] at member
    rw [numbers]
    exact drafted.kept name member
  · intro name
    rw [nonterminals, numbers]
    exact drafted.numbers name

theorem nodup_attributesOf_collect (grammar : Grammar) (symbol : String) :
    (grammar.collect.attributesOf symbol).Nodup :=
  nodup_collectAttributes (by simp) symbol

theorem completeSymbol_collect {grammar : Grammar} {rule : Rule} {symbol : Symbol}
    (kept : rule ∈ grammar.rules) (member : symbol ∈ rule.symbols) :
    grammar.collect.completeSymbol symbol =
        symbol.complete (grammar.collect.attributesOf symbol.name) ∧
      symbol.attributes.keys ⊆ grammar.collect.attributesOf symbol.name := by
  have occurs : symbol ∈ grammar.rules.flatMap Rule.symbols :=
    List.mem_flatMap.mpr ⟨rule, kept, member⟩
  constructor
  · have known : symbol.name ∈ grammar.collect.attributesBySymbol.keys :=
      mem_keys_collectAttributes.mpr (Or.inr ⟨symbol, occurs, rfl⟩)
    obtain ⟨names, found⟩ := OrderedMap.exists_get? known
    simp only [completeSymbol, attributesOf, found, Option.getD_some]
  · intro name present
    exact mem_collectAttributes.mpr (Or.inr ⟨symbol, occurs, rfl, present⟩)

private theorem extends_complete {grammar : Grammar} :
    List.Forall₂ (fun old new : Rule => List.Forall₂ Symbol.Extends old.symbols new.symbols)
      grammar.rules grammar.collect.complete.rules := by
  apply List.forall₂_map_right_iff.mpr
  apply List.forall₂_same.mpr
  intro rule kept
  apply List.forall₂_map_right_iff.mpr
  apply List.forall₂_same.mpr
  intro symbol member
  rw [(completeSymbol_collect kept member).1]
  exact Symbol.extends_complete (nodup_attributesOf_collect grammar symbol.name) symbol

theorem keys_complete {grammar : Grammar} (drafted : grammar.Drafted) {rule : Rule}
    (kept : rule ∈ grammar.collect.complete.rules) {symbol : Symbol} (member : symbol ∈ rule.symbols) :
    symbol.attributes.keys = Text.sorted (grammar.collect.attributesOf symbol.name) := by
  obtain ⟨old, present, rfl⟩ := List.mem_map.mp kept
  change old ∈ grammar.rules at present
  obtain ⟨before, occurs, rfl⟩ := List.mem_map.mp member
  obtain ⟨place, found⟩ := List.mem_iff_getElem?.mp occurs
  obtain ⟨completed, within⟩ := completeSymbol_collect present occurs
  rw [completed]
  exact Symbol.keys_complete (nodup_attributesOf_collect grammar before.name)
    ((drafted.sound old present).placed place before found).distinct within

theorem reconcile_drafted {grammar : Grammar} (drafted : grammar.Drafted) : ∃ rules,
    List.Forall₂ Rule.ResolvesTo grammar.collect.complete.rules rules ∧
    grammar.reconcile = .done (separateTerminals { grammar.collect.complete with
      rules := rules, elementCounts := rules.map Rule.elementCount }) := by
  have completed : grammar.collect.complete.Drafted := drafted.extended rfl rfl extends_complete
  obtain ⟨rules, same, resolved⟩ :=
    resolveRules_sound completed.sound [] { grammar.collect.complete with elementCounts := [] }
  exact ⟨rules, same, by rw [reconcile, resolved]; rfl⟩

theorem nonterminals_reconcile {grammar final : Grammar} (drafted : grammar.Drafted)
    (reconciled : grammar.reconcile = .done final) : final.nonterminals = grammar.nonterminals := by
  obtain ⟨rules, _, done⟩ := reconcile_drafted drafted
  obtain rfl := Outcome.done.inj (reconciled.symm.trans done)
  rfl

/-- Reconciliation makes a drafted grammar ready, without fault and without a new error. -/
theorem ready_reconcile {grammar : Grammar} (drafted : grammar.Drafted) :
    ∃ final, grammar.reconcile = .done final ∧ final.Ready ∧ final.errors = grammar.errors ∧
      final.attributeNames = grammar.attributeNames ∧
      List.Forall₂ Rule.ResolvesTo grammar.collect.complete.rules final.rules := by
  have completed : grammar.collect.complete.Drafted := drafted.extended rfl rfl extends_complete
  obtain ⟨rules, same, reconciled⟩ := reconcile_drafted drafted
  have extension : List.Forall₂ (fun old new : Rule =>
      List.Forall₂ Symbol.Extends old.symbols new.symbols) grammar.collect.complete.rules rules :=
    same.imp fun _ _ resolves => resolves.sameEdges.imp fun _ _ symbol => symbol.extends
  refine ⟨_, reconciled, ⟨completed.extended rfl rfl extension, fun rule kept symbol member => ?_⟩,
    rfl, rfl, same⟩
  obtain ⟨number, found⟩ := List.mem_iff_getElem?.mp kept
  obtain ⟨middle, there, symbols⟩ := Sequence.before_of_getElem? same found
  obtain ⟨place, here⟩ := List.mem_iff_getElem?.mp member
  obtain ⟨old, present, edges⟩ := Sequence.before_of_getElem? symbols.sameEdges here
  rw [edges.keys, keys_complete drafted (List.mem_of_getElem? there) (List.mem_of_getElem? present),
    edges.1]
  rfl

end Grammar
end AttributeGrammar
