import AttributeGrammar.Proofs.Coherence
import AttributeGrammar.Proofs.OrderIndependence
import AttributeGrammar.Proofs.Grammar.Concatenation
import Mathlib

/-! Which names are nonterminals, and which rules each of them has.
A row that is given up halfway leaves names behind but no rule, so a nonterminal need not be in the
table. The rules, their table and the sets of names agree all the same.
-/
namespace AttributeGrammar
open Text

/-- The rule part of the row has one arrow, and what stands on the left is this name, whether or not
the right side is in order. -/
def Introduces (row : List Char) (name : String) : Prop :=
  ∃ left right, OneArrow (rulePart row) left right ∧ isEmpty left = false ∧ ' ' ∉ strip left ∧
    Allowed (strip left) ∧ name = String.ofList (strip left)

/-- Every rule has its number under its left side and nowhere else, and the left sides stand in the
order of their first rules. -/
structure Grammar.Partitioned (grammar : Grammar) : Prop where
  keys : grammar.nonterminals.keys = (grammar.rules.filterMap Rule.leftName?).eraseDups
  named : ∀ rule ∈ grammar.rules, ∃ name ∈ grammar.nonterminals.keys, rule.leftName? = some name
  lists : ∀ name ∈ grammar.nonterminals.keys,
    grammar.nonterminals.get? name = some (grammar.numbersOf name)
  once : (grammar.nonterminals.entries.flatMap Prod.snd).Perm (List.range grammar.rules.length)
  rulesFor : ∀ name, grammar.rulesFor name = .ok (grammar.numbersOf name)

/-- The names of the grammar are those that its rules use and the rows introduce, and every symbol is
either a terminal or a nonterminal. -/
structure Grammar.NamedBy (rows : List (List Char)) (grammar : Grammar) : Prop where
  defined : ∀ name ∈ grammar.nonterminals.keys, name ∈ grammar.nonterminalNames
  symbols : ∀ rule ∈ grammar.rules, ∀ symbol ∈ rule.symbols, symbol.name ∈ grammar.symbolNames
  nonterminals : ∀ name, name ∈ grammar.nonterminalNames ↔ ∃ row ∈ rows, Introduces row name
  terminals : ∀ name, name ∈ grammar.terminalNames ↔
    name ∈ grammar.symbolNames ∧ name ∉ grammar.nonterminalNames
  disjoint : grammar.terminalNames.Disjoint grammar.nonterminalNames
  together : ∀ name, name ∈ grammar.symbolNames ↔
    name ∈ grammar.terminalNames ∨ name ∈ grammar.nonterminalNames

/-! ### The names of a row -/

namespace RowDraft

private theorem nonterminalNames_subset_sides (rule : List Char) :
    (sides rule).nonterminalNames ⊆ (sides rule).symbolNames := by
  unfold sides
  split
  · exact List.subset_append_left _ _
  · exact List.Subset.refl _

private theorem mem_nonterminalNames_ofSides {left : Except Problem String}
    {right : Except Problem (List String)} {name : String} :
    name ∈ (ofSides left right).nonterminalNames ↔ left = .ok name := by
  cases left <;> simp [ofSides, eq_comm]

private theorem mem_nonterminalNames_sides {rule : List Char} {name : String} :
    name ∈ (sides rule).nonterminalNames ↔
      ∃ left right, OneArrow rule left right ∧ readLeftSide rule left = .ok name := by
  unfold sides
  split
  · next left right pair =>
    rw [mem_nonterminalNames_ofSides]
    constructor
    · exact fun read => ⟨left, right, arrowPieces_eq_pair_iff.mp pair, read⟩
    · rintro ⟨other, rest, arrow, read⟩
      obtain ⟨rfl, _⟩ : left = other ∧ right = rest := by
        simpa [pair] using arrowPieces_eq_pair_iff.mpr arrow
      exact read
  · next several =>
    refine ⟨fun member => absurd member List.not_mem_nil, ?_⟩
    rintro ⟨left, right, arrow, _⟩
    exact absurd (arrowPieces_eq_pair_iff.mpr arrow) (several left right)

end RowDraft

theorem Introduces.filled {row : List Char} {name : String} (introduces : Introduces row name) :
    isEmpty row = false := by
  obtain ⟨_, _, arrow, _⟩ := introduces
  exact arrow.filled.2

namespace Grammar
variable {configuration : Configuration} {row : List Char}

private theorem mem_nonterminalNames_rowDraft (calm : ¬ RowStumbles configuration row) {name : String} :
    name ∈ (rowDraft configuration row).nonterminalNames ↔ Introduces row name := by
  by_cases blank : isEmpty row = true
  · rw [rowDraft, if_pos blank]
    refine ⟨fun member => absurd member List.not_mem_nil, fun introduces => ?_⟩
    rw [introduces.filled] at blank
    cases blank
  · rw [(names_rowDraft calm (Bool.eq_false_iff.mpr blank)).2.1]
    simp only [RowDraft.mem_nonterminalNames_sides, readLeftSide_eq_ok_iff, Introduces]

private theorem nonterminalNames_subset_rowDraft (calm : ¬ RowStumbles configuration row) :
    (rowDraft configuration row).nonterminalNames ⊆ (rowDraft configuration row).symbolNames := by
  by_cases blank : isEmpty row = true
  · rw [rowDraft, if_pos blank]
    exact List.Subset.refl _
  · obtain ⟨symbols, nonterminals, _⟩ := names_rowDraft calm (Bool.eq_false_iff.mpr blank)
    rw [symbols, nonterminals]
    exact RowDraft.nonterminalNames_subset_sides _

/-! ### The rules and their table -/

variable {grammar : Grammar}

private theorem rulesFor_eq (drafted : grammar.Drafted) (name : String) :
    grammar.rulesFor name = .ok (grammar.numbersOf name) := by
  have each : ∀ rule ∈ grammar.rules, ∃ left, rule.left = .ok left := by
    intro rule kept
    obtain ⟨left, first⟩ := drafted.exists_left kept
    exact ⟨left, Rule.left_eq_ok_iff.mpr first⟩
  obtain ⟨lefts, went⟩ := mapM_total each
  have read := mapM_success went
  have same : ∀ number ∈ List.range grammar.rules.length,
      (lefts[number]?.any fun left => left.name == name) =
        decide (grammar.rules[number]?.bind Rule.leftName? = some name) := by
    intro number inside
    have found := List.getElem?_eq_getElem (List.mem_range.mp inside)
    obtain ⟨left, there, first⟩ := Sequence.after_of_getElem? read found
    have named : grammar.rules[number]?.bind Rule.leftName? = some left.name := by
      simp [found, Rule.leftName?, Rule.left_eq_ok_iff.mp first]
    simp [there, named, beq_eq_decide]
  rw [rulesFor, went]
  change Except.ok _ = _
  rw [Sequence.map_snd_filter_zipIdx lefts fun left => left.name == name, ← read.length_eq,
    List.filter_congr same]
  rfl

private theorem perm_numbers (ready : grammar.Ready) :
    (grammar.nonterminals.entries.flatMap Prod.snd).Perm (List.range grammar.rules.length) := by
  have lists : grammar.nonterminals.entries.flatMap Prod.snd =
      grammar.nonterminals.keys.flatMap grammar.numbersOf := by
    rw [OrderedMap.keys, List.flatMap_map]
    exact List.flatMap_congr fun entry member => Analysis.numbers_of_mem ready member
  have distinct : (grammar.nonterminals.keys.flatMap grammar.numbersOf).Nodup := by
    -- A number under two names would be that of a rule with two left sides.
    refine List.nodup_flatMap.mpr ⟨fun name _ => nodup_numbersOf grammar name,
      ready.distinct.imp fun {name other} different number listed also => different ?_⟩
    obtain ⟨rule, found, named⟩ := mem_numbersOf.mp listed
    obtain ⟨same, there, namedOther⟩ := mem_numbersOf.mp also
    obtain rfl : rule = same := by simpa [found] using there
    simpa [named] using namedOther
  rw [List.perm_ext_iff_of_nodup (lists ▸ distinct) List.nodup_range]
  intro number
  rw [List.mem_range]
  refine ⟨fun listed => ?_, Analysis.mem_numbers ready⟩
  rw [lists] at listed
  obtain ⟨name, _, here⟩ := List.mem_flatMap.mp listed
  obtain ⟨_, found, _⟩ := mem_numbersOf.mp here
  exact (List.getElem?_eq_some_iff.mp found).1

private theorem partitioned (ready : grammar.Ready)
    (keys : grammar.nonterminals.keys = (grammar.rules.filterMap Rule.leftName?).eraseDups) :
    grammar.Partitioned := by
  refine ⟨keys, fun rule kept => ?_, fun name known => ?_, perm_numbers ready,
    rulesFor_eq ready.toDrafted⟩
  · obtain ⟨name, _, named⟩ := ready.registered rule kept
    exact ⟨name, ready.mem_keys_iff.mpr ⟨rule, kept, named⟩, named⟩
  · obtain ⟨numbers, found⟩ := OrderedMap.exists_get? known
    rw [found, ← ready.numbers, found, Option.getD_some]

end Grammar

namespace Study
variable {reading : Reading} {text : List Char} {draft grammar : Grammar}

private theorem Drafts.keys_eq (drafts : Drafts reading text draft grammar)
    (drafted : Grammar.ofRows reading.configuration (rows text) = .ok draft) :
    grammar.nonterminals.keys = (grammar.rules.filterMap Rule.leftName?).eraseDups := by
  have table : grammar.nonterminals = draft.nonterminals :=
    Grammar.nonterminals_reconcile drafts.drafted drafts.reconciled
  have lefts : grammar.rules.map Rule.leftName? = draft.rules.map Rule.leftName? :=
    Sequence.map_eq_of_forall₂ (drafts.alike.imp fun _ _ same => same.leftName?_eq.symm)
  have names : grammar.rules.filterMap Rule.leftName? = draft.rules.filterMap Rule.leftName? := by
    have same := congrArg (List.filterMap id) lefts
    simpa [List.filterMap_map] using same
  rw [table, names]
  exact Grammar.keys_addRows drafted rfl

private theorem Drafts.mem_symbolNames_of_rule (drafts : Drafts reading text draft grammar)
    (drafted : Grammar.ofRows reading.configuration (rows text) = .ok draft) {rule : Rule}
    (kept : rule ∈ grammar.rules) {name : String} (used : name ∈ rule.symbolNames) :
    name ∈ grammar.symbolNames := by
  obtain ⟨number, found⟩ := List.mem_iff_getElem?.mp kept
  obtain ⟨old, present, same⟩ := Sequence.before_of_getElem? drafts.alike found
  obtain ⟨row, member, made, left, right, keeps⟩ :=
    drafts.fromRows.exists_keeps (List.mem_of_getElem? present)
  have calm := drafts.fromRows.calm row member
  obtain ⟨_, _, names⟩ := Grammar.names_rowDraft calm keeps.filled.2
  rw [(drafts.mem_symbolNames drafted name).1]
  exact ⟨row, member, names old made ▸ same.names ▸ used⟩

private theorem Drafts.namedBy (drafts : Drafts reading text draft grammar)
    (drafted : Grammar.ofRows reading.configuration (rows text) = .ok draft) :
    grammar.NamedBy (rows text) := by
  have ready := drafts.reconciledTo.ready
  have terminals (name : String) : name ∈ grammar.terminalNames ↔
      name ∈ grammar.symbolNames ∧ name ∉ grammar.nonterminalNames := by
    rw [drafts.reconciledTo.terminalNames, drafts.reconciledTo.symbolNames,
      drafts.reconciledTo.nonterminalNames]
    simp
  have known : grammar.nonterminalNames ⊆ grammar.symbolNames := by
    intro name member
    obtain ⟨row, present, given⟩ := (drafts.mem_symbolNames drafted name).2.mp member
    exact (drafts.mem_symbolNames drafted name).1.mpr ⟨row, present,
      Grammar.nonterminalNames_subset_rowDraft (drafts.fromRows.calm row present) given⟩
  refine ⟨fun name member => ?_, fun rule kept symbol used => ?_, fun name => ?_, terminals,
    fun name terminal => ((terminals name).mp terminal).2, fun name => ?_⟩
  · obtain ⟨rule, kept, named⟩ := ready.mem_keys_iff.mp member
    obtain ⟨same, registered, namedSame⟩ := ready.registered rule kept
    obtain rfl : name = same := by simpa [named] using namedSame
    exact registered
  · exact drafts.mem_symbolNames_of_rule drafted kept (List.mem_map_of_mem used)
  · rw [(drafts.mem_symbolNames drafted name).2]
    exact exists_congr fun row => and_congr_right fun member =>
      Grammar.mem_nonterminalNames_rowDraft (drafts.fromRows.calm row member)
  · have inSymbols (member : name ∈ grammar.nonterminalNames) : name ∈ grammar.symbolNames :=
      known member
    rw [terminals]
    tauto

private theorem namedBy_blank (blank : isEmpty text = true) :
    Grammar.NamedBy (rows text) { errors := [.emptyText] } := by
  refine ⟨?_, ?_, fun name => ?_, ?_, ?_, ?_⟩ <;> simp [OrderedMap.keys]
  intro row member introduces
  obtain ⟨_, _, arrow, _⟩ := introduces
  rw [filled_of_arrow member arrow] at blank
  cases blank

/-- Rows that are in order, rows of which only one side is and rows without any rule may come in any
mixture: every rule has its number under its left side alone, the left sides are nonterminals, and the
nonterminals are what the rows introduce. The exported data numbers the rules in the same way. -/
theorem rules_partitioned {study : Study} (ended : ofCharacters reading text = .ok study) :
    study.grammar.Partitioned ∧ study.grammar.NamedBy (rows text) ∧
    ∃ value parts, Report.data study = .ok value ∧
      value.field? "productionRules" = some (.list parts) ∧
      List.Forall₂ (fun number part => part.field? "index" = some (.int (Int.ofNat number)))
        (List.range study.grammar.rules.length) parts := by
  obtain ⟨ready, rounds, shows, _⟩ := shows_of_ok ended
  obtain ⟨grammar, parses⟩ := exists_grammar (not_reaches_of_ok ended)
  obtain rfl : study.grammar = grammar := parses.unique ended
  obtain ⟨value, made, _, presents⟩ :=
    Report.data_spec (aligned_of_shows shows) fun _ kept => ready.exists_left kept
  obtain ⟨parts, shown, numbered⟩ := presents.rules
  have whole : study.grammar.Partitioned ∧ study.grammar.NamedBy (rows text) := by
    rcases parses.origin with ⟨blank, empty⟩ | ⟨filled, _⟩
    · rw [empty] at ready ⊢
      exact ⟨Grammar.partitioned ready rfl, namedBy_blank blank⟩
    · obtain ⟨draft, drafted, drafts⟩ := exists_drafts filled parses.read
      exact ⟨Grammar.partitioned ready (drafts.keys_eq drafted), drafts.namedBy drafted⟩
  exact ⟨whole.1, whole.2, value, parts, made, shown, numbered.imp fun _ _ part => part.1⟩

/-- The right side of the third row is faulty, and the fourth has two arrows. -/
def givenUpHalfway : List Char := "S -> A B
A -> a
B -> =
C -> D -> d
S -> A".toList

theorem rules_partitioned_givenUpHalfway : ∃ study value parts,
    ofCharacters { roundLimit := 3 } givenUpHalfway = .ok study ∧
      study.grammar.errors.map GrammarError.number = [3, 4] ∧
      study.grammar.nonterminals.entries = [("S", [0, 2]), ("A", [1])] ∧
      study.grammar.rulesFor "S" = .ok [0, 2] ∧ study.grammar.rulesFor "B" = .ok [] ∧
      (∃ row ∈ rows givenUpHalfway, Introduces row "B") ∧ "B" ∉ study.grammar.terminalNames ∧
      (∀ row ∈ rows givenUpHalfway, ¬ Introduces row "C") ∧ Report.data study = .ok value ∧
      value.field? "productionRules" = some (.list parts) ∧ parts.length = 3 := by
  have read : ∃ study, ofCharacters { roundLimit := 3 } givenUpHalfway = .ok study ∧
      study.grammar.errors.map GrammarError.number = [3, 4] ∧
      study.grammar.nonterminals.entries = [("S", [0, 2]), ("A", [1])] ∧
      study.grammar.numbersOf "S" = [0, 2] ∧ study.grammar.numbersOf "B" = [] ∧
      study.grammar.nonterminalNames.contains "B" = true ∧
      study.grammar.nonterminalNames.contains "C" = false ∧ study.grammar.rules.length = 3 :=
    ⟨_, by cbv, by cbv, by cbv, by cbv, by cbv, by cbv, by cbv, by cbv⟩
  obtain ⟨study, ended, errors, table, ofS, ofB, hasB, hasC, count⟩ := read
  obtain ⟨partitioned, named, value, parts, made, shown, numbered⟩ := rules_partitioned ended
  have present : "B" ∈ study.grammar.nonterminalNames := List.contains_iff_mem.mp hasB
  have absent : "C" ∉ study.grammar.nonterminalNames := by simpa using hasC
  refine ⟨study, value, parts, ended, errors, table, ?_, ?_, (named.nonterminals "B").mp present,
    fun terminal => named.disjoint terminal present, fun row member introduces => ?_, made, shown, ?_⟩
  · rw [partitioned.rulesFor, ofS]
  · rw [partitioned.rulesFor, ofB]
  · exact absent ((named.nonterminals "C").mpr ⟨row, member, introduces⟩)
  · rw [← numbered.length_eq, List.length_range, count]

end Study
end AttributeGrammar
