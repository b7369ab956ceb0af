import AttributeGrammar.Grammar.Draft
import AttributeGrammar.Proofs.Grammar.Row
import Mathlib.Data.List.Basic

/-! The grammar that the rows of a text put together.
Its rules are sound, and its table lists each of them under its left side and nowhere else.
-/
namespace AttributeGrammar

def Rule.leftName? (rule : Rule) : Option String := rule.left?.map Symbol.name

theorem Rule.left_eq_ok_iff {rule : Rule} {left : Symbol} :
    rule.left = .ok left ↔ rule.left? = some left := by
  obtain ⟨symbols⟩ := rule
  cases symbols <;> simp [Rule.left, Rule.left?]

theorem Rule.exists_text {rule : Rule} {left : Symbol} (first : rule.left? = some left) :
    ∃ written, rule.text = .ok written :=
  ⟨_, by rw [text, left_eq_ok_iff.mpr first]; rfl⟩

namespace Grammar

/-- The numbers of the rules with the given left side, in ascending order. -/
def numbersOf (grammar : Grammar) (name : String) : List Nat :=
  (List.range grammar.rules.length).filter fun number =>
    grammar.rules[number]?.bind Rule.leftName? = some name

theorem mem_numbersOf {grammar : Grammar} {name : String} {number : Nat} :
    number ∈ grammar.numbersOf name ↔
      ∃ rule, grammar.rules[number]? = some rule ∧ rule.leftName? = some name := by
  simp only [numbersOf, List.mem_filter, List.mem_range, decide_eq_true_eq, Option.bind_eq_some_iff]
  constructor
  · rintro ⟨_, rule, found, left⟩
    exact ⟨rule, found, left⟩
  · rintro ⟨rule, found, left⟩
    exact ⟨(List.getElem?_eq_some_iff.mp found).1, rule, found, left⟩

theorem nodup_numbersOf (grammar : Grammar) (name : String) : (grammar.numbersOf name).Nodup :=
  List.nodup_range.filter _

/-- What holds of the rules and the table of nonterminals while rows are added. -/
structure Drafted (grammar : Grammar) : Prop where
  sound : ∀ rule ∈ grammar.rules, rule.Sound
  registered : ∀ rule ∈ grammar.rules, ∃ name ∈ grammar.nonterminalNames, rule.leftName? = some name
  distinct : grammar.nonterminals.keys.Nodup
  kept : ∀ name ∈ grammar.nonterminals.keys, grammar.numbersOf name ≠ []
  numbers : ∀ name, (grammar.nonterminals.get? name).getD [] = grammar.numbersOf name

theorem Drafted.exists_left {grammar : Grammar} (drafted : grammar.Drafted) {rule : Rule}
    (kept : rule ∈ grammar.rules) : ∃ left, rule.left? = some left := by
  obtain ⟨_, _, named⟩ := drafted.registered rule kept
  obtain ⟨left, first, _⟩ := Option.map_eq_some_iff.mp named
  exact ⟨left, first⟩

theorem Drafted.exists_text {grammar : Grammar} (drafted : grammar.Drafted) {rule : Rule}
    (kept : rule ∈ grammar.rules) : ∃ written, rule.text = .ok written := by
  obtain ⟨left, first⟩ := drafted.exists_left kept
  exact Rule.exists_text first

private theorem drafted_empty : Drafted {} := by
  constructor <;> simp [numbersOf]

theorem mem_addNames {names known : List String} {name : String} :
    name ∈ addNames names known ↔ name ∈ names ∨ name ∈ known := by
  induction names with
  | nil => simp [addNames]
  | cons head rest ih =>
    change name ∈ List.insert head (addNames rest known) ↔ _
    rw [List.mem_insert_iff, ih, List.mem_cons, or_assoc]

private theorem numbersOf_addRule (grammar : Grammar) (rule : Rule) (name : String) :
    (grammar.addRule rule).numbersOf name = grammar.numbersOf name ++
      if rule.leftName? = some name then [grammar.rules.length] else [] := by
  have before : ∀ number ∈ List.range grammar.rules.length,
      (decide (((grammar.rules ++ [rule])[number]?.bind Rule.leftName?) = some name)) =
        decide ((grammar.rules[number]?.bind Rule.leftName?) = some name) := by
    intro number inside
    rw [List.getElem?_append_left (List.mem_range.mp inside)]
  have last : [grammar.rules.length].filter (fun number =>
      (grammar.rules ++ [rule])[number]?.bind Rule.leftName? = some name) =
        if rule.leftName? = some name then [grammar.rules.length] else [] := by
    by_cases left : rule.leftName? = some name <;> simp [left]
  change (List.range (grammar.rules ++ [rule]).length).filter _ = _
  rw [List.length_append, List.length_singleton, List.range_succ, List.filter_append, ← last]
  exact congrArg (· ++ _) (List.filter_congr before)

theorem Drafted.addRule {grammar : Grammar} (drafted : grammar.Drafted) {rule : Rule} {left : String}
    (sound : rule.Sound) (named : rule.leftName? = some left)
    (registered : left ∈ grammar.nonterminalNames) : (grammar.addRule rule).Drafted := by
  obtain ⟨symbol, first, rfl⟩ := Option.map_eq_some_iff.mp named
  have table : (grammar.addRule rule).nonterminals = grammar.nonterminals.insert symbol.name
      ((grammar.nonterminals.get? symbol.name).getD [] ++ [grammar.rules.length]) := by
    simp [Grammar.addRule, first]
  constructor
  · intro other member
    rcases List.mem_append.mp member with old | new
    · exact drafted.sound other old
    · exact List.mem_singleton.mp new ▸ sound
  · intro other member
    rcases List.mem_append.mp member with old | new
    · exact drafted.registered other old
    · exact ⟨symbol.name, registered, List.mem_singleton.mp new ▸ named⟩
  · rw [table]
    exact OrderedMap.nodup_keys_insert drafted.distinct _ _
  · intro name member
    rw [table, OrderedMap.mem_keys_insert] at member
    rw [numbersOf_addRule]
    rcases member with rfl | old
    · simp [named]
    · simp [drafted.kept name old]
  · intro name
    rw [table, OrderedMap.get?_insert, numbersOf_addRule, named]
    by_cases same : name = symbol.name
    · simp [same, drafted.numbers]
    · have other : symbol.name ≠ name := fun equal => same equal.symm
      simp [same, other, drafted.numbers]

theorem Drafted.addRow {grammar : Grammar} (drafted : grammar.Drafted) (line : Nat)
    {draft : RowDraft}
    (read : ∀ rule, draft.rule = some rule →
      rule.Sound ∧ ∃ name ∈ draft.nonterminalNames, rule.leftName? = some name) :
    (grammar.addRow line draft).Drafted := by
  have known : grammar.nonterminalNames ⊆ addNames draft.nonterminalNames grammar.nonterminalNames :=
    fun name member => mem_addNames.mpr (Or.inr member)
  cases kept : draft.rule with
  | none =>
    rw [Grammar.addRow, kept]
    exact ⟨drafted.sound, fun rule member => (drafted.registered rule member).imp
      fun name found => ⟨known found.1, found.2⟩, drafted.distinct, drafted.kept, drafted.numbers⟩
  | some rule =>
    obtain ⟨sound, left, new, named⟩ := read rule kept
    let registering : Grammar := { grammar with
      nonterminalNames := addNames draft.nonterminalNames grammar.nonterminalNames }
    have before : registering.Drafted :=
      ⟨drafted.sound, fun rule member => (drafted.registered rule member).imp
        fun name found => ⟨known found.1, found.2⟩, drafted.distinct, drafted.kept, drafted.numbers⟩
    have added := before.addRule sound named (mem_addNames.mpr (Or.inl new))
    rw [Grammar.addRow, kept]
    exact ⟨added.sound, added.registered, added.distinct, added.kept, added.numbers⟩

private theorem drafted_addRows {configuration : Configuration} {rows : List (List Char)} {line : Nat}
    {grammar final : Grammar} (ok : addRows configuration line rows grammar = .ok final)
    (drafted : grammar.Drafted) : final.Drafted := by
  induction rows generalizing line grammar with
  | nil => exact Except.ok.inj ok ▸ drafted
  | cons row rest ih =>
    rw [addRows] at ok
    split at ok
    · exact ih ok drafted
    · obtain ⟨draft, read, ok⟩ := bind_success ok
      exact ih ok (drafted.addRow line fun rule => RowDraft.rule_read read)

theorem drafted_ofRows {configuration : Configuration} {rows : List (List Char)} {grammar : Grammar}
    (ok : ofRows configuration rows = .ok grammar) : grammar.Drafted :=
  drafted_addRows ok drafted_empty

end Grammar
end AttributeGrammar
