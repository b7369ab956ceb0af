import AttributeGrammar.Proofs.Analysis.Alike
import AttributeGrammar.Proofs.History
import AttributeGrammar.Proofs.Meaning
import Mathlib

/-! What the analysis of a symbol depends on.
The rules of other symbols give attributes to the occurrences of a symbol, and with that other places to
its attributes, but no edges. So the relations of a symbol follow from the rules of the symbols that it
reaches through right sides, whatever else there is in the grammar.
-/
namespace AttributeGrammar
open Relation (ReflTransGen)

namespace Rule
variable {rule draft completed : Rule}

private theorem edgesFrom_of_mem (sound : rule.Sound) {place : Nat} {symbol : Symbol}
    (found : rule.symbols[place]? = some symbol) {entry : String × Attribute}
    (member : entry ∈ symbol.attributes.entries) :
    rule.edgesFrom ⟨place, entry.1⟩ = entry.2.dependencies.keys := by
  rw [edgesFrom, declared_from sound found member]
  rfl

private theorem edgesFrom_of_not_holds (sound : rule.Sound) {c : Coordinate} (absent : ¬ rule.Holds c) :
    rule.edgesFrom c = [] := by
  rw [List.eq_nil_iff_forall_not_mem]
  intro edge member
  obtain ⟨declared, source⟩ := mem_edgesFrom.mp member
  obtain ⟨d, kept, rfl⟩ := List.mem_map.mp declared
  exact absent (source ▸ sound.holds_source kept)

/-- Attributes that are completed have no edges. -/
theorem alike_of_completedTo (soundDraft : draft.Sound) (sound : completed.Sound)
    (names : draft.symbolNames = completed.symbolNames)
    (symbols : List.Forall₂ Symbol.CompletedTo draft.symbols completed.symbols) :
    draft.Alike completed := by
  refine ⟨names, fun ⟨index, name⟩ => ?_⟩
  by_cases held : draft.Holds ⟨index, name⟩
  · obtain ⟨place, symbol, found, rfl, member⟩ := held
    obtain ⟨data, stored⟩ := OrderedMap.exists_of_mem_keys member
    obtain ⟨after, present, completion⟩ := Sequence.after_of_getElem? symbols found
    obtain ⟨entry, there, rfl, _, edges⟩ := completion.kept _ stored
    exact (edgesFrom_of_mem soundDraft found stored).trans
      (edges.symm.trans (edgesFrom_of_mem sound present there).symm)
  · rw [edgesFrom_of_not_holds soundDraft held]
    by_cases holds : completed.Holds ⟨index, name⟩
    · obtain ⟨place, symbol, found, rfl, member⟩ := holds
      obtain ⟨data, stored⟩ := OrderedMap.exists_of_mem_keys member
      obtain ⟨before, present, completion⟩ := Sequence.before_of_getElem? symbols found
      rcases completion.origin _ stored with ⟨old, there, rfl, _⟩ | ⟨_, noEdges⟩
      · exact absurd ⟨place, before, present, rfl, OrderedMap.mem_keys_of_mem there⟩ held
      · exact noEdges.symm.trans (edgesFrom_of_mem sound found stored).symm
    · exact (edgesFrom_of_not_holds sound holds).symm

theorem Alike.leftName?_eq {left right : Rule} (alike : left.Alike right) :
    left.leftName? = right.leftName? :=
  Grammar.leftName?_of_names alike.names

end Rule

namespace Grammar

private theorem name_completeSymbol (grammar : Grammar) (symbol : Symbol) :
    (grammar.completeSymbol symbol).name = symbol.name := by
  unfold completeSymbol
  split <;> rfl

theorem alike_reconcile {draft grammar : Grammar} (drafted : draft.Drafted) (ready : grammar.Ready)
    (resolved : List.Forall₂ Rule.ResolvesTo draft.collect.complete.rules grammar.rules) :
    List.Forall₂ Rule.Alike draft.rules grammar.rules := by
  have names : List.Forall₂ (fun old new : Rule => old.symbolNames = new.symbolNames)
      draft.rules grammar.rules := by
    refine (List.forall₂_map_left_iff.mp resolved).imp fun old new resolves => ?_
    have completed := List.forall₂_map_left_iff.mp resolves.sameEdges
    refine (Sequence.map_eq_of_forall₂ (completed.imp fun symbol after same => ?_)).symm
    rw [same.1, name_completeSymbol]
  have symbols := completedTo_reconcile resolved
  refine (Sequence.forall₂_members (Sequence.forall₂_and names symbols)).imp fun old new all => ?_
  obtain ⟨wrote, kept, named, completed⟩ := all
  exact Rule.alike_of_completedTo (drafted.sound old wrote) (ready.sound new kept) named completed

end Grammar

namespace Study

/-- The rules of a symbol as the rows of the text write them, in order. -/
def writtenRules (configuration : Configuration) (text : List Char) (name : String) : List Rule :=
  ((Text.rows text).filterMap fun row => (Grammar.rowDraft configuration row).rule).filter
    fun rule => rule.leftName? = some name

/-- Some rule of the first symbol has the second one on its right side. -/
def Mentions (configuration : Configuration) (text : List Char) (name child : String) : Prop :=
  ∃ rule ∈ writtenRules configuration text name, child ∈ rule.symbolNames.drop 1

variable {reading other : Reading} {text otherText : List Char} {grammar otherGrammar : Grammar}

private theorem writtenRules_blank {configuration : Configuration}
    (calm : ¬ ReachesLongReference configuration text)
    (blank : Text.isEmpty text = true) (name : String) :
    writtenRules configuration text name = [] := by
  rw [List.eq_nil_iff_forall_not_mem]
  intro rule member
  obtain ⟨row, present, made⟩ := List.mem_filterMap.mp (List.mem_filter.mp member).1
  obtain ⟨left, right, keeps⟩ := (Grammar.rule_rowDraft_isSome
    (fun stumbles => calm ⟨row, present, stumbles⟩)).mp (by rw [made]; rfl)
  rw [filled_of_keeps present keeps] at blank
  cases blank

theorem Drafts.alike {draft : Grammar} (drafts : Drafts reading text draft grammar) :
    List.Forall₂ Rule.Alike draft.rules grammar.rules := by
  obtain ⟨ready, _, _, resolved⟩ := drafts.of_reconcile
  exact Grammar.alike_reconcile drafts.drafted ready resolved

/-- The rules of a symbol in the grammar are those that are written, completed. -/
theorem alike_writtenRules (read : ofCharacters reading text = .ok { grammar := grammar })
    (name : String) : List.Forall₂ Rule.Alike (writtenRules reading.configuration text name)
      (grammar.rulesOf name) := by
  have calm := not_reaches_of_ok read
  obtain ⟨same, parses⟩ := exists_grammar calm
  obtain rfl : grammar = same := parses.unique read
  rcases parses.origin with ⟨blank, rfl⟩ | ⟨_, draft, drafts⟩
  · rw [writtenRules_blank calm blank]
    exact .nil
  · have alike := drafts.alike
    rw [drafts.fromRows.rules] at alike
    exact Sequence.forall₂_filter alike fun same => by rw [same.leftName?_eq]

/-- Symbols whose written rules are the same are shared, if all that is reached from them is. -/
theorem shares_of_writtenRules (read : ofCharacters reading text = .ok { grammar := grammar })
    (readOther : ofCharacters other otherText = .ok { grammar := otherGrammar }) {name : String}
    (same : ∀ reached, ReflTransGen (Mentions reading.configuration text) name reached →
      writtenRules reading.configuration text reached =
        writtenRules other.configuration otherText reached) :
    grammar.Shares otherGrammar (ReflTransGen (Mentions reading.configuration text) name) := by
  constructor
  · intro reached path
    have written := alike_writtenRules read reached
    have writtenOther := alike_writtenRules readOther reached
    rw [← same reached path] at writtenOther
    exact Sequence.forall₂_trans (fun first second => first.symm.trans second) written.flip
      writtenOther
  · intro reached path rule kept child present
    obtain ⟨place, found⟩ := List.mem_iff_getElem?.mp kept
    obtain ⟨old, wrote, alike⟩ := Sequence.before_of_getElem? (alike_writtenRules read reached) found
    exact path.tail ⟨old, List.mem_of_getElem? wrote, alike.names ▸ present⟩

/-- If all symbols that are reached from a symbol have the same rules in two texts, every round that is
played of both gives the symbol the same relations in the same order. Its corresponding rules have the
same projections, the same redecorated relations and the same cycles. -/
theorem same_rounds_of_reachable (read : ofCharacters reading text = .ok { grammar := grammar })
    (readOther : ofCharacters other otherText = .ok { grammar := otherGrammar }) {name : String}
    (same : ∀ reached, ReflTransGen (Mentions reading.configuration text) name reached →
      writtenRules reading.configuration text reached =
        writtenRules other.configuration otherText reached) (limit otherLimit : Nat) :
    (grammar.numbersOf name).length = (otherGrammar.numbersOf name).length ∧
    (∀ (round : Nat) (snapshot otherSnapshot : NonterminalRound),
      ((Analysis.run limit grammar {}).state.history name)[round]? = some snapshot →
      ((Analysis.run otherLimit otherGrammar {}).state.history name)[round]? = some otherSnapshot →
        snapshot.relations.keys = otherSnapshot.relations.keys) ∧
    ∀ place number otherNumber : Nat, (grammar.numbersOf name)[place]? = some number →
      (otherGrammar.numbersOf name)[place]? = some otherNumber →
      ∀ (round : Nat) (snapshot otherSnapshot : RuleRound),
        ((Analysis.run limit grammar {}).state.rule number).history[round]? = some snapshot →
        ((Analysis.run otherLimit otherGrammar {}).state.rule otherNumber).history[round]? =
          some otherSnapshot →
        snapshot.projections.keys = otherSnapshot.projections.keys ∧
          snapshot.redecorated.keys = otherSnapshot.redecorated.keys ∧
          snapshot.cycleStarts = otherSnapshot.cycleStarts := by
  have ready := ready_of_read read
  have readyOther := ready_of_read readOther
  have shares := shares_of_writtenRules read readOther same
  have alike := shares.alike name .refl
  have count (grammar : Grammar) : (grammar.numbersOf name).length = (grammar.rulesOf name).length := by
    have lengths := congrArg List.length (Grammar.map_numbersOf grammar name)
    simpa using lengths
  obtain ⟨rounds, _, went⟩ := Analysis.run_through ready limit
  obtain ⟨otherRounds, _, otherWent⟩ := Analysis.run_through readyOther otherLimit
  have shows := Analysis.rounds_shows ready went
  have otherShows := Analysis.rounds_shows readyOther otherWent
  refine ⟨by rw [count, count, alike.length_eq], fun round snapshot otherSnapshot here there => ?_,
    fun place number otherNumber listed otherListed round snapshot otherSnapshot here there => ?_⟩
  · have known {grammar : Grammar} {analysis : Analysis} {rounds : Nat} {found : NonterminalRound}
        (went : Outcome.through (Analysis.playRound grammar) (List.range rounds) {} = .done analysis)
        (played : (analysis.history name)[round]? = some found) :
        name ∈ grammar.nonterminals.keys := by
      by_contra absent
      rw [Analysis.history_of_not_mem_keys went absent] at played
      cases played
    rw [shows.nonterminals name (known went here), Grammar.snapshots,
      Sequence.getElem?_map_range_iff] at here
    rw [otherShows.nonterminals name (known otherWent there), Grammar.snapshots,
      Sequence.getElem?_map_range_iff] at there
    obtain ⟨_, rfl⟩ := here
    obtain ⟨_, rfl⟩ := there
    exact shares.agreeOn_family ready readyOther (round + 1) name .refl
  · have below {grammar : Grammar} {number : Nat}
        (listed : (grammar.numbersOf name)[place]? = some number) : number < grammar.rules.length := by
      obtain ⟨_, found, _⟩ := Grammar.getElem?_rulesOf listed
      exact (List.getElem?_eq_some_iff.mp found).1
    rw [shows.rules number (below listed), Grammar.history_progress,
      Sequence.getElem?_map_range_iff] at here
    rw [otherShows.rules otherNumber (below otherListed), Grammar.history_progress,
      Sequence.getElem?_map_range_iff] at there
    obtain ⟨_, rfl⟩ := here
    obtain ⟨_, rfl⟩ := there
    exact shares.ruleSnapshot ready readyOther round .refl listed otherListed

/-- The rules of `S` and `A`, on which nothing but they and `a` depends. -/
def twoSymbols : List Char := "S -> A : v[0] = v[1]; s[1] = s[0]\nA -> a : v[0] = s[0]".toList

/-- The same rules behind one that gives `A` another attribute and is cyclic. -/
def cycleElsewhere : List Char :=
  "B -> A : b[0] = c[0]; c[0] = b[0]; r[1] = b[0]\nS -> A : v[0] = v[1]; s[1] = s[0]\nA -> a : v[0] = s[0]".toList

theorem same_rounds_cycleElsewhere : ∃ grammar otherGrammar snapshot otherSnapshot,
    ofCharacters { roundLimit := 0, analyze := false } twoSymbols = .ok { grammar := grammar } ∧
      ofCharacters { roundLimit := 0, analyze := false } cycleElsewhere =
        .ok { grammar := otherGrammar } ∧
      (Analysis.run 2 otherGrammar {}).state.acyclic = false ∧
      ((Analysis.run 2 grammar {}).state.history "S")[1]? = some snapshot ∧
      ((Analysis.run 2 otherGrammar {}).state.history "S")[1]? = some otherSnapshot ∧
      snapshot.relations.keys = otherSnapshot.relations.keys := by
  have drafts : ∃ rules extra,
      ((Text.rows twoSymbols).filterMap fun row => (Grammar.rowDraft {} row).rule) = rules ∧
      ((Text.rows cycleElsewhere).filterMap fun row => (Grammar.rowDraft {} row).rule) =
        extra :: rules ∧
      Rule.leftName? extra = some "B" ∧ rules.all (fun rule => !rule.symbolNames.contains "B") = true :=
    ⟨_, _, by cbv, by cbv, by cbv, by cbv⟩
  have read : ∃ grammar snapshot,
      ofCharacters { roundLimit := 0, analyze := false } twoSymbols = .ok { grammar := grammar } ∧
      ((Analysis.run 2 grammar {}).state.history "S")[1]? = some snapshot :=
    ⟨_, _, by cbv, by cbv⟩
  have readOther : ∃ grammar snapshot,
      ofCharacters { roundLimit := 0, analyze := false } cycleElsewhere =
        .ok { grammar := grammar } ∧
      (Analysis.run 2 grammar {}).state.acyclic = false ∧
      ((Analysis.run 2 grammar {}).state.history "S")[1]? = some snapshot :=
    ⟨_, _, by cbv, by cbv, by cbv⟩
  obtain ⟨rules, extra, written, writtenOther, named, absent⟩ := drafts
  obtain ⟨grammar, snapshot, read, here⟩ := read
  obtain ⟨otherGrammar, otherSnapshot, readOther, cyclic, there⟩ := readOther
  have away {reached : String} (path : ReflTransGen (Mentions {} twoSymbols) "S" reached) :
      reached ≠ "B" := by
    cases path with
    | refl => decide
    | tail _ mentions =>
      obtain ⟨rule, wrote, child⟩ := mentions
      rw [writtenRules, written] at wrote
      have lacks := List.all_eq_true.mp absent rule (List.mem_filter.mp wrote).1
      rintro rfl
      simp [List.mem_of_mem_drop child] at lacks
  have same : ∀ reached, ReflTransGen (Mentions {} twoSymbols) "S" reached →
      writtenRules {} twoSymbols reached = writtenRules {} cycleElsewhere reached := by
    intro reached path
    have other : ¬ "B" = reached := fun equal => away path equal.symm
    rw [writtenRules, writtenRules, written, writtenOther,
      List.filter_cons_of_neg (by simpa [named] using other)]
  obtain ⟨_, relations, _⟩ := same_rounds_of_reachable read readOther same 2 2
  exact ⟨grammar, otherGrammar, snapshot, otherSnapshot, read, readOther, cyclic, here, there,
    relations 1 snapshot otherSnapshot here there⟩

end Study
end AttributeGrammar
