import AttributeGrammar.Proofs.Parsing

/-! The places of attributes that dependencies are resolved to.
They are looked up once, by reconciliation. A relation is put on a child with the places it has on the
left side of another rule, which are right there since all occurrences of a symbol have the same
attributes in the same order.
-/
namespace AttributeGrammar

namespace Grammar
variable {grammar : Grammar} {rule : Rule} {analysis : Analysis}

theorem Ready.resolves_relation (ready : grammar.Ready) (kept : rule ∈ grammar.rules) {name : String}
    (named : rule.leftName? = some name) {relation : Dependency}
    (relates : grammar.Relates name relation) : rule.Resolves relation := by
  obtain ⟨left, _, rfl, found, _⟩ := ready.leftKeys kept named
  have resolves := ready.resolves_redecorated kept found relates
  obtain ⟨⟨⟨_, _⟩, ⟨_, _⟩⟩, _⟩ := relation
  obtain ⟨rfl, rfl, _⟩ := relates
  exact resolves

/-- Whatever the analysis recorded is resolved to where the rules have their attributes. -/
structure Locates (grammar : Grammar) (analysis : Analysis) : Prop where
  rules : ∀ number rule, grammar.rules[number]? = some rule →
    ∀ snapshot ∈ (analysis.rule number).history,
      (∀ d ∈ snapshot.redecorated.entries, rule.Resolves d) ∧
        ∀ d ∈ snapshot.projections.entries, rule.Resolves d
  relations : ∀ name, grammar.Defines name → ∀ snapshot ∈ analysis.history name,
    ∀ d ∈ snapshot.relations.entries, d.1.source.symbolIndex = 0 ∧ d.1.target.symbolIndex = 0 ∧
      ∀ rule ∈ grammar.rules, rule.leftName? = some name → rule.Resolves d

theorem resolves_projections (ready : grammar.Ready) {number : Nat}
    (found : grammar.rules[number]? = some rule) (round : Nat) :
    ∀ d ∈ grammar.projections (grammar.family round) number, rule.Resolves d := by
  intro d member
  have kept := List.mem_of_getElem? found
  obtain ⟨name, _, named⟩ := ready.registered rule kept
  rw [projections, found, Option.elim_some] at member
  exact ready.resolves_relation kept named
    (ready.relates_projection (ready.within_family round) kept named d member)

theorem resolves_ruleSnapshot (ready : grammar.Ready) {number : Nat}
    (found : grammar.rules[number]? = some rule) (round : Nat) :
    (∀ d ∈ (grammar.ruleSnapshot round number).redecorated.entries, rule.Resolves d) ∧
      ∀ d ∈ (grammar.ruleSnapshot round number).projections.entries, rule.Resolves d := by
  have projects := resolves_projections ready found round
  rw [projections, found, Option.elim_some] at projects
  simp only [ruleSnapshot, found, Option.elim_some, RuleRound.record]
  constructor
  · intro d member
    rcases OrderedMap.mem_insertAll member with absent | put
    · cases absent
    · exact ready.resolves_of_mem_redecorated (ready.within_family round)
        (List.mem_of_getElem? found) d put
  · intro d member
    rcases OrderedMap.mem_insertAll member with absent | projected
    · cases absent
    · exact projects d projected

theorem locates_showsRounds (ready : grammar.Ready) {rounds : Nat}
    (shows : grammar.ShowsRounds rounds analysis) : grammar.Locates analysis := by
  constructor
  · intro number rule found snapshot member
    rw [shows.rules number (List.getElem?_eq_some_iff.mp found).1, history_progress] at member
    obtain ⟨round, _, rfl⟩ := List.mem_map.mp member
    exact resolves_ruleSnapshot ready found round
  · intro name defined snapshot member d related
    rw [shows.nonterminals name (ready.mem_keys_iff.mpr defined)] at member
    obtain ⟨round, _, rfl⟩ := List.mem_map.mp member
    have relates := ready.within_family (round + 1) name d related
    exact ⟨relates.1, relates.2.1, fun rule kept named => ready.resolves_relation kept named relates⟩

end Grammar

namespace Study
open Text
variable {reading : Reading} {text : List Char} {grammar : Grammar}

/-- The grammar of a text keeps every dependency at the place of its source, with the right places of
both its ends; none is reported as unresolved, and all that any number of rounds records is resolved
as well. -/
theorem located_everywhere
    (read : ofCharacters { reading with analyze := false } text = .ok { grammar := grammar }) :
    (∀ rule ∈ grammar.rules, rule.Located ∧ ∀ d ∈ rule.declared, rule.Resolves d) ∧
      (∀ error ∈ grammar.errors, ∀ number problem, error ≠ .inRule number problem) ∧
      (∀ limit, grammar.Locates (Analysis.run limit grammar {}).state) ∧
      ∀ study, ofCharacters reading text = .ok study →
        study.grammar = grammar ∧ grammar.Locates study.analysis := by
  have calm := not_reaches_of_ok read
  obtain ⟨same, parses⟩ : ∃ same, Parses reading text same := exists_grammar calm
  obtain rfl : grammar = same := by simpa [parses.read] using read.symm
  have ready := parses.ready
  refine ⟨fun rule kept => ?_, fun error member number problem => ?_, fun limit => ?_, fun study ended => ?_⟩
  · have located : rule.Located := by
      rcases parses.origin with ⟨_, rfl⟩ | ⟨_, draft, drafts⟩
      · cases kept
      · obtain ⟨place, found⟩ := List.mem_iff_getElem?.mp kept
        obtain ⟨_, _, _, rules⟩ := drafts.of_reconcile
        obtain ⟨before, _, resolves⟩ := Sequence.before_of_getElem? rules found
        exact resolves.located (ready.sound rule kept)
    exact ⟨located, fun d => located.resolves⟩
  · rcases parses.origin with ⟨_, rfl⟩ | ⟨_, draft, drafts⟩
    · obtain rfl := List.mem_singleton.mp member
      exact GrammarError.noConfusion
    · rw [drafts.of_reconcile.2.1] at member
      obtain ⟨line, row, _, other, _, rfl⟩ := drafts.fromRows.mem_errors_iff.mp member
      exact GrammarError.noConfusion
  · rcases Analysis.run_cases ready limit with ⟨_, final, _, _, _, went, shows⟩ | ⟨final, _, went, shows⟩
    all_goals
      rw [went]
      exact Grammar.locates_showsRounds ready shows
  · refine ⟨parses.unique ended, ?_⟩
    rcases parses.whole with plain | runs
    · rw [plain] at ended
      obtain rfl := Except.ok.inj ended
      exact Grammar.locates_showsRounds ready grammar.showsRounds_start
    · obtain ⟨_, _, _, _, _, shows⟩ := runs.ended ended
      exact Grammar.locates_showsRounds ready shows

/-- The relation of the second rule is put on the child of the first, where nothing is declared. -/
def movedRelation : List Char := "S -> A\nA -> : b[0] = a[0]".toList

theorem located_movedRelation : ∃ study rule,
    ofCharacters { roundLimit := 4 } movedRelation = .ok study ∧
      study.grammar.rules[0]? = some rule ∧ ∃ snapshot ∈ (study.analysis.rule 0).history,
        ∃ d ∈ snapshot.redecorated.entries, rule.Resolves d := by
  have read : ∃ grammar, ofCharacters { analyze := false, roundLimit := 4 } movedRelation =
      .ok { grammar := grammar } := ⟨_, by cbv⟩
  have ended : ∃ study rule snapshot d rest, ofCharacters { roundLimit := 4 } movedRelation =
      .ok study ∧ study.grammar.rules[0]? = some rule ∧
        (study.analysis.rule 0).history[1]? = some snapshot ∧
          snapshot.redecorated.entries = d :: rest :=
    ⟨_, _, _, _, _, by cbv, by cbv, by cbv, by cbv⟩
  obtain ⟨grammar, read⟩ := read
  obtain ⟨study, rule, snapshot, d, rest, ended, found, second, put⟩ := ended
  have member := List.mem_of_getElem? second
  have first : d ∈ snapshot.redecorated.entries := put ▸ List.mem_cons_self
  obtain ⟨_, _, _, recorded⟩ := @located_everywhere { roundLimit := 4 } movedRelation grammar read
  obtain ⟨rfl, locates⟩ := recorded study ended
  exact ⟨study, rule, ended, found, snapshot, member, d, first,
    (locates.rules 0 rule found snapshot member).1 d first⟩

end Study
end AttributeGrammar
