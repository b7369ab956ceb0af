import AttributeGrammar.Proofs.Matching
import AttributeGrammar.Proofs.Rearrangement
import Mathlib

/-! What does not depend on the order of rows and equations.
The order decides in which order the rules are numbered, the attributes collected and the edges searched.
None of that shows in the grammar but for the order of its parts, nor in an analysis that meets no cycle.
-/
namespace AttributeGrammar
open Text

/-- The same names of each kind, in whatever order. -/
structure Grammar.SameNames (grammar other : Grammar) : Prop where
  symbols : ∀ name, name ∈ grammar.symbolNames ↔ name ∈ other.symbolNames
  nonterminals : ∀ name, name ∈ grammar.nonterminalNames ↔ name ∈ other.nonterminalNames
  terminals : ∀ name, name ∈ grammar.terminalNames ↔ name ∈ other.terminalNames
  attributes : ∀ name, name ∈ grammar.attributeNames ↔ name ∈ other.attributeNames

/-- So many rules come before the row, if every row that is not blank has one. -/
def ruleNumber (rows : List (List Char)) (line : Nat) : Nat :=
  ((rows.take line).filter fun row => !isEmpty row).length

/-- The numbers of two rules whose rows differ at most in the order of their equations. -/
def Counterparts (rows others : List (List Char)) (number otherNumber : Nat) : Prop :=
  ∃ (line otherLine : Nat) (row other : List Char), rows[line]? = some row ∧
    others[otherLine]? = some other ∧ RowRearranged row other ∧ isEmpty row = false ∧
    number = ruleNumber rows line ∧ otherNumber = ruleNumber others otherLine

private theorem ruleNumber_collapse (rows : List (List Char)) (line : Nat) :
    ruleNumber (rows.map collapse) line = ruleNumber rows line := by
  rw [ruleNumber, ← List.map_take, List.filter_map, List.length_map, ruleNumber]
  simp only [Function.comp_def, isEmpty_collapse]

theorem Counterparts.collapse {rows others : List (List Char)} {number otherNumber : Nat}
    (counterparts : Counterparts rows others number otherNumber) :
    Counterparts (rows.map collapse) (others.map collapse) number otherNumber := by
  obtain ⟨line, otherLine, row, other, found, foundOther, rearranged, filled, rfl, rfl⟩ := counterparts
  refine ⟨line, otherLine, _, _, ?_, ?_, rearranged.collapse, ?_, ?_, ?_⟩
  · rw [List.getElem?_map, found, Option.map_some]
  · rw [List.getElem?_map, foundOther, Option.map_some]
  · rw [isEmpty_collapse, filled]
  · rw [ruleNumber_collapse]
  · rw [ruleNumber_collapse]

/-- The same rounds: every nonterminal got the same relations in each, and the rules that the numbers
are of got the same edges and gave the same projections. -/
structure Analysis.SameRounds (corresponding : Nat → Nat → Prop) (analysis other : Analysis) :
    Prop where
  roundCount : analysis.stability.roundCount = other.stability.roundCount
  relations : ∀ name, List.Forall₂ (fun left right : NonterminalRound =>
    left.relations.sameKeys right.relations = true) (analysis.history name) (other.history name)
  rules : ∀ number otherNumber, corresponding number otherNumber →
    List.Forall₂ (fun left right : RuleRound => left.projections.sameKeys right.projections = true ∧
      left.redecorated.sameKeys right.redecorated = true)
        (analysis.rule number).history (other.rule otherNumber).history

namespace Study
variable {reading : Reading} {text otherText : List Char} {draft grammar otherDraft other : Grammar}

theorem exists_drafts (filled : isEmpty text = false)
    (read : ofCharacters { reading with analyze := false } text = .ok { grammar := grammar }) :
    ∃ draft, Grammar.ofRows reading.configuration (rows text) = .ok draft ∧
      Drafts reading text draft grammar := by
  obtain ⟨draft, same, drafted, reconciled, _, _, equal⟩ := exists_draft filled read
  obtain rfl : grammar = same := congrArg Study.grammar equal
  rcases Grammar.ofRows_cases reading.configuration (rows text) with
    ⟨final, went, fromRows⟩ | ⟨⟨_, fault⟩, _⟩
  · obtain rfl := Except.ok.inj (drafted.symm.trans went)
    exact ⟨draft, drafted, fromRows, Grammar.drafted_ofRows drafted, reconciled⟩
  · cases drafted.symm.trans fault

theorem Drafts.reconciledTo (drafts : Drafts reading text draft grammar) :
    draft.ReconciledTo grammar :=
  Grammar.reconciledTo_of_done drafts.drafted drafts.fromRows.direct drafts.reconciled

theorem Drafts.namesAttribute (drafts : Drafts reading text draft grammar) {symbol name : String}
    (member : name ∈ grammar.attributesOf symbol) : ∃ row ∈ rows text, ∃ symbolCount c,
      NamesAttribute symbolCount row c ∧ c.name = name := by
  obtain ⟨rule, kept, occurrence, occurs, _, has⟩ := drafts.reconciledTo.mem_attributesOf.mp member
  obtain ⟨row, present, symbolCount, declares⟩ := drafts.fromRows.exists_declares kept
  obtain ⟨place, found⟩ := List.mem_iff_getElem?.mp occurs
  exact ⟨row, present, symbolCount, ⟨place, name⟩,
    (declares.holds _).mp ⟨place, occurrence, found, rfl, has⟩, rfl⟩

/-- In a text without errors every row that is not blank gives a rule. -/
theorem Drafts.getElem?_ruleNumber (drafts : Drafts reading text draft grammar)
    (fine : grammar.errors = []) {line : Nat} {row : List Char} (found : (rows text)[line]? = some row)
    (filled : isEmpty row = false) : ∃ rule, draft.rules[ruleNumber (rows text) line]? = some rule ∧
      (Grammar.rowDraft reading.configuration row).rule = some rule := by
  have accepted := drafts.errors_eq_nil_iff.mp fine
  have made {row : List Char} (member : row ∈ rows text) :
      (Grammar.rowDraft reading.configuration row).rule.isSome = !isEmpty row := by
    rw [Bool.eq_iff_iff, Grammar.rule_rowDraft_isSome (drafts.fromRows.calm row member),
      Bool.not_eq_true']
    constructor
    · exact fun ⟨_, _, keeps⟩ => keeps.filled.2
    · intro filled
      obtain ⟨left, right, keeps, _⟩ := (accepted row member filled).rule
      exact ⟨left, right, keeps⟩
  have here := made (List.mem_of_getElem? found)
  rw [filled] at here
  obtain ⟨rule, written⟩ := Option.isSome_iff_exists.mp here
  have before : ruleNumber (rows text) line = (((rows text).take line).filterMap
      fun row => (Grammar.rowDraft reading.configuration row).rule).length := by
    rw [ruleNumber, List.length_filterMap_eq_countP, ← List.countP_eq_length_filter]
    exact List.countP_congr fun row member => by rw [made (List.mem_of_mem_take member)]
  refine ⟨rule, ?_, written⟩
  rw [before, drafts.fromRows.rules]
  exact Sequence.getElem?_filterMap found written

private theorem matches_of_counterparts (drafts : Drafts reading text draft grammar)
    (draftsOther : Drafts reading otherText otherDraft other) (fine : grammar.errors = [])
    (fineOther : other.errors = []) (same : draft.Corresponds otherDraft) {number otherNumber : Nat}
    (counterparts : Counterparts (rows text) (rows otherText) number otherNumber) :
    ∃ rule otherRule, grammar.rules[number]? = some rule ∧
      other.rules[otherNumber]? = some otherRule ∧ rule.Matches otherRule := by
  obtain ⟨line, otherLine, row, otherRow, found, foundOther, rearranged, filled, rfl, rfl⟩ :=
    counterparts
  obtain ⟨old, there, made⟩ := drafts.getElem?_ruleNumber fine found filled
  obtain ⟨otherOld, thereOther, madeOther⟩ :=
    draftsOther.getElem?_ruleNumber fineOther foundOther (rearranged.isEmpty_eq ▸ filled)
  obtain ⟨counterpart, written, corresponds⟩ := rearranged.exists_corresponds
    (drafts.fromRows.calm row (List.mem_of_getElem? found)) made
  obtain rfl := Option.some.inj (madeOther.symm.trans written)
  exact same.matches drafts.reconciledTo draftsOther.reconciledTo corresponds there thereOther

/-- Rearranging the rows of a text without errors brings no error. -/
theorem exists_drafts_rearranged (rearranged : Rearranged (rows text) (rows otherText))
    (filled : isEmpty text = false) (drafts : Drafts reading text draft grammar)
    (fine : grammar.errors = []) : isEmpty otherText = false ∧ ∃ otherDraft other,
      Drafts reading otherText otherDraft other ∧
      ofCharacters { reading with analyze := false } otherText = .ok { grammar := other } ∧
      other.errors = [] := by
  have filledOther : isEmpty otherText = false := by
    rw [← isEmpty_rows, List.all_eq_false] at filled ⊢
    exact (rearranged.exists_iff fun row _ other same => by rw [same.isEmpty_eq]).mp filled
  refine ⟨filledOther, ?_⟩
  rcases draft_cases reading filledOther with ⟨otherDraft, other, draftsOther, read, _⟩ | ⟨_, reaches⟩
  · refine ⟨otherDraft, other, draftsOther, read, draftsOther.errors_eq_nil_iff.mpr ?_⟩
    intro row member filled
    obtain ⟨former, here, same⟩ := rearranged.symm.counterpart member
    rw [same.isEmpty_eq] at filled
    exact same.symm.accepted (drafts.errors_eq_nil_iff.mp fine former here filled)
  · obtain ⟨row, member, stumbles⟩ := reaches
    obtain ⟨former, here, same⟩ := rearranged.symm.counterpart member
    exact absurd (same.stumbles stumbles) (drafts.fromRows.calm former here)

theorem Drafts.mem_symbolNames (drafts : Drafts reading text draft grammar)
    (drafted : Grammar.ofRows reading.configuration (rows text) = .ok draft) (name : String) :
    (name ∈ grammar.symbolNames ↔ ∃ row ∈ rows text,
      name ∈ (Grammar.rowDraft reading.configuration row).symbolNames) ∧
    (name ∈ grammar.nonterminalNames ↔ ∃ row ∈ rows text,
      name ∈ (Grammar.rowDraft reading.configuration row).nonterminalNames) := by
  rw [drafts.reconciledTo.symbolNames, drafts.reconciledTo.nonterminalNames]
  simpa using Grammar.mem_names_addRows drafted name

private theorem sameNames_of_rearranged (rearranged : Rearranged (rows text) (rows otherText))
    (drafts : Drafts reading text draft grammar)
    (drafted : Grammar.ofRows reading.configuration (rows text) = .ok draft)
    (draftsOther : Drafts reading otherText otherDraft other)
    (draftedOther : Grammar.ofRows reading.configuration (rows otherText) = .ok otherDraft) :
    grammar.SameNames other := by
  have names (row : List Char) (member : row ∈ rows text) (other : List Char)
      (same : RowRearranged row other) :=
    same.names_rowDraft_eq (drafts.fromRows.calm row member)
  have symbols (name : String) : name ∈ grammar.symbolNames ↔ name ∈ other.symbolNames := by
    rw [(drafts.mem_symbolNames drafted name).1, (draftsOther.mem_symbolNames draftedOther name).1]
    exact rearranged.exists_iff fun row member other same => by rw [(names row member other same).1]
  have nonterminals (name : String) :
      name ∈ grammar.nonterminalNames ↔ name ∈ other.nonterminalNames := by
    rw [(drafts.mem_symbolNames drafted name).2, (draftsOther.mem_symbolNames draftedOther name).2]
    exact rearranged.exists_iff fun row member other same => by rw [(names row member other same).2]
  have same := rearranged.corresponds drafts.fromRows draftsOther.fromRows
  refine ⟨symbols, nonterminals, fun name => ?_, fun name => ?_⟩
  · rw [drafts.reconciledTo.terminalNames, draftsOther.reconciledTo.terminalNames,
      ← drafts.reconciledTo.symbolNames, ← draftsOther.reconciledTo.symbolNames,
      ← drafts.reconciledTo.nonterminalNames, ← draftsOther.reconciledTo.nonterminalNames,
      List.mem_filter, List.mem_filter, symbols]
    simp [nonterminals]
  · rw [drafts.reconciledTo.attributeNames, draftsOther.reconciledTo.attributeNames,
      drafts.fromRows.mem_attributeNames, draftsOther.fromRows.mem_attributeNames]
    exact ⟨same.hasAttribute, same.symm.hasAttribute⟩

private theorem history_of_not_defines (ready : grammar.Ready) (limit : Nat) {name : String}
    (undefined : ¬ grammar.Defines name) :
    (Analysis.run limit grammar {}).state.history name = [] := by
  obtain ⟨_, _, went⟩ := Analysis.run_through ready limit
  exact Analysis.history_of_not_mem_keys went fun known => undefined (ready.mem_keys_iff.mp known)

/-- Without a cycle the analysis plays the same rounds, whatever the order. -/
theorem sameRounds (ready : grammar.Ready) (readyOther : other.Ready)
    (same : grammar.Corresponds other) {corresponding : Nat → Nat → Prop}
    (rules : ∀ number otherNumber, corresponding number otherNumber → ∃ rule otherRule,
      grammar.rules[number]? = some rule ∧ other.rules[otherNumber]? = some otherRule ∧
        rule.Corresponds otherRule) {limit : Nat} {analysis : Analysis}
    (went : Analysis.run limit grammar {} = .done analysis) (acyclic : analysis.acyclic = true) :
    ∃ otherAnalysis, Analysis.run limit other {} = .done otherAnalysis ∧
      analysis.SameRounds corresponding otherAnalysis := by
  have notCyclic := (Grammar.acyclic_of_run ready went).mp acyclic
  obtain ⟨rounds, otherAnalysis, wentOther, shows, showsOther⟩ :=
    same.run_done ready readyOther notCyclic went
  refine ⟨otherAnalysis, wentOther, ?_, fun name => ?_, fun number otherNumber corresponds => ?_⟩
  · simp [Stability.roundCount, shows.marks, showsOther.marks]
  · by_cases defined : grammar.Defines name
    · exact same.sameKeys_history ready readyOther notCyclic shows showsOther defined
    · have empty := history_of_not_defines ready limit defined
      have noneOther := history_of_not_defines readyOther limit
        fun defines => defined (same.defines_iff.mpr defines)
      rw [went] at empty
      rw [wentOther] at noneOther
      rw [show analysis.history name = [] from empty,
        show otherAnalysis.history name = [] from noneOther]
      exact .nil
  · obtain ⟨rule, otherRule, found, foundOther, matching⟩ := rules number otherNumber corresponds
    exact same.sameKeys_ruleHistory ready readyOther notCyclic shows showsOther matching found
      foundOther

/-- If the rows of a text without errors are put in another order, and the equations of each as well,
the text is read to the same grammar but for the order of its parts. The verdict of the analysis is the
same, and if there is no cycle, every round records the same relations, edges and projections. -/
theorem same_result_of_rearranged (reading : Reading)
    (rearranged : Rearranged (lines text) (lines otherText))
    (read : ofCharacters { reading with analyze := false } text = .ok { grammar := grammar })
    (fine : grammar.errors = []) : ∃ other,
      ofCharacters { reading with analyze := false } otherText = .ok { grammar := other } ∧
      other.errors = [] ∧ grammar.SameNames other ∧
      (∀ number otherNumber, Counterparts (lines text) (lines otherText) number otherNumber →
        ∃ rule otherRule count, grammar.rules[number]? = some rule ∧
          other.rules[otherNumber]? = some otherRule ∧ rule.Matches otherRule ∧
          grammar.elementCounts[number]? = some count ∧
          other.elementCounts[otherNumber]? = some count) ∧
      (∀ limit otherLimit analysis otherAnalysis, Analysis.run limit grammar {} = .done analysis →
        Analysis.run otherLimit other {} = .done otherAnalysis →
          analysis.acyclic = otherAnalysis.acyclic) ∧
      ∀ limit analysis, Analysis.run limit grammar {} = .done analysis → analysis.acyclic = true →
        ∃ otherAnalysis, Analysis.run limit other {} = .done otherAnalysis ∧
          analysis.SameRounds (Counterparts (lines text) (lines otherText)) otherAnalysis := by
  have collapsed := rearranged.collapse
  rw [← rows_eq, ← rows_eq] at collapsed
  have filled : isEmpty text = false := by
    by_contra blank
    rw [ofCharacters_blank _ (Bool.eq_true_of_not_eq_false blank)] at read
    obtain rfl : { errors := [.emptyText] } = grammar := congrArg Study.grammar (Except.ok.inj read)
    cases fine
  obtain ⟨draft, drafted, drafts⟩ := exists_drafts filled read
  obtain ⟨filledOther, _, other, _, readOther, fineOther⟩ :=
    exists_drafts_rearranged collapsed filled drafts fine
  obtain ⟨otherDraft, draftedOther, draftsOther⟩ := exists_drafts filledOther readOther
  have ready := drafts.reconciledTo.ready
  have readyOther := draftsOther.reconciledTo.ready
  have same := collapsed.corresponds drafts.fromRows draftsOther.fromRows
  have corresponds := same.of_drafts drafts.reconciledTo draftsOther.reconciledTo
  have rules (number otherNumber : Nat)
      (counterparts : Counterparts (lines text) (lines otherText) number otherNumber) := by
    have counterparts := counterparts.collapse
    rw [← rows_eq, ← rows_eq] at counterparts
    exact matches_of_counterparts drafts draftsOther fine fineOther same counterparts
  refine ⟨other, readOther, fineOther,
    sameNames_of_rearranged collapsed drafts drafted draftsOther draftedOther, ?_, ?_, ?_⟩
  · intro number otherNumber counterparts
    obtain ⟨rule, otherRule, found, foundOther, matching⟩ := rules number otherNumber counterparts
    refine ⟨rule, otherRule, rule.elementCount, found, foundOther, matching, ?_, ?_⟩
    · rw [drafts.reconciledTo.elementCounts, List.getElem?_map, found, Option.map_some]
    · rw [draftsOther.reconciledTo.elementCounts, List.getElem?_map, foundOther, Option.map_some,
        matching.elementCount_eq]
  · intro limit otherLimit analysis otherAnalysis went wentOther
    rw [Bool.eq_iff_iff, Grammar.acyclic_of_run ready went,
      Grammar.acyclic_of_run readyOther wentOther, corresponds.cyclic_iff]
  · intro limit analysis went acyclic
    refine sameRounds ready readyOther corresponds (fun number otherNumber counterparts => ?_) went
      acyclic
    obtain ⟨rule, otherRule, found, foundOther, matching⟩ := rules number otherNumber counterparts
    exact ⟨rule, otherRule, found, foundOther, matching.corresponds⟩

/-- The rows of `twoSymbols` in the other order, and the equations of `S` as well. -/
def twoSymbolsSwapped : List Char :=
  "A -> a : v[0] = s[0]\nS -> A : s[1] = s[0]; v[0] = v[1]".toList

private theorem rowRearranged_swapped : RowRearranged "S -> A : v[0] = v[1]; s[1] = s[0]".toList
    "S -> A : s[1] = s[0]; v[0] = v[1]".toList := by
  have has : HasEquations "S -> A : v[0] = v[1]; s[1] = s[0]".toList
      " v[0] = v[1]; s[1] = s[0]".toList := ⟨by decide, by decide⟩
  have hasOther : HasEquations "S -> A : s[1] = s[0]; v[0] = v[1]".toList
      " s[1] = s[0]; v[0] = v[1]".toList := ⟨by decide, by decide⟩
  exact .equations has hasOther (by decide) (by decide)

private theorem rearranged_twoSymbolsSwapped :
    Rearranged (lines twoSymbols) (lines twoSymbolsSwapped) := by
  have first : lines twoSymbols =
      ["S -> A : v[0] = v[1]; s[1] = s[0]".toList, "A -> a : v[0] = s[0]".toList] := by cbv
  have second : lines twoSymbolsSwapped =
      ["A -> a : v[0] = s[0]".toList, "S -> A : s[1] = s[0]; v[0] = v[1]".toList] := by cbv
  rw [first, second]
  exact ⟨_, .swap _ _ _, .cons (.refl _) (.cons rowRearranged_swapped .nil)⟩

theorem same_result_twoSymbolsSwapped : ∃ grammar other analysis otherAnalysis rule otherRule,
    ofCharacters { roundLimit := 0, analyze := false } twoSymbols = .ok { grammar := grammar } ∧
      ofCharacters { roundLimit := 0, analyze := false } twoSymbolsSwapped = .ok { grammar := other } ∧
      grammar.rules[0]? = some rule ∧ other.rules[1]? = some otherRule ∧ rule.Matches otherRule ∧
      Analysis.run 6 grammar {} = .done analysis ∧ analysis.acyclic = true ∧
      Analysis.run 6 other {} = .done otherAnalysis ∧
      analysis.SameRounds (Counterparts (lines twoSymbols) (lines twoSymbolsSwapped))
        otherAnalysis := by
  have read : ∃ grammar analysis,
      ofCharacters { roundLimit := 0, analyze := false } twoSymbols = .ok { grammar := grammar } ∧
      Analysis.run 6 grammar {} = .done analysis ∧ analysis.acyclic = true ∧ grammar.errors = [] :=
    ⟨_, _, by cbv, by cbv, by cbv, by cbv⟩
  have counterparts : Counterparts (lines twoSymbols) (lines twoSymbolsSwapped) 0 1 :=
    ⟨0, 1, _, _, by cbv, by cbv, rowRearranged_swapped, by decide, by cbv, by cbv⟩
  obtain ⟨grammar, analysis, read, went, acyclic, fine⟩ := read
  obtain ⟨other, readOther, _, _, rules, _, rounds⟩ :=
    same_result_of_rearranged { roundLimit := 0 } rearranged_twoSymbolsSwapped read fine
  obtain ⟨rule, otherRule, _, found, foundOther, matching, _⟩ := rules 0 1 counterparts
  obtain ⟨otherAnalysis, wentOther, same⟩ := rounds 6 analysis went acyclic
  exact ⟨grammar, other, analysis, otherAnalysis, rule, otherRule, read, readOther, found, foundOther,
    matching, went, acyclic, wentOther, same⟩

end Study
end AttributeGrammar
