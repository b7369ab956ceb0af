import AttributeGrammar.Proofs.Analysis.Fixpoint
import AttributeGrammar.Proofs.Study
import Mathlib

/-! How the rounds of the analysis go on.
The relations of a round depend on nothing but those of the round before, and there are finitely many
of them, so the rounds come round again. A strongly acyclic grammar has a stable round before that;
a cyclic one need not have any, since a search gives up at the first cycle it meets and a relation
that one round finds may be missed by the next.
-/
namespace AttributeGrammar

namespace Grammar
variable {grammar : Grammar}

private theorem finite_relates (grammar : Grammar) (name : String) :
    {d | grammar.Relates name d}.Finite := by
  let named := Text.sorted (grammar.attributesOf name)
  let places := Finset.range named.length ×ˢ Finset.range named.length
  let relation (place : Nat × Nat) : Dependency :=
    (⟨⟨0, named.getD place.1 ""⟩, ⟨0, named.getD place.2 ""⟩⟩,
      ⟨some (place.1 : Int), some (place.2 : Int)⟩)
  apply (places.image relation).finite_toSet.subset
  rintro ⟨⟨⟨_, source⟩, ⟨_, target⟩⟩, _⟩ ⟨rfl, rfl, i, j, rfl, first, second⟩
  have known {place : Nat} {text : String} (found : named[place]? = some text) :
      place < named.length ∧ named.getD place "" = text :=
    ⟨(List.getElem?_eq_some_iff.mp found).1, by rw [List.getD, found]; rfl⟩
  obtain ⟨below, sourceName⟩ := known first
  obtain ⟨less, targetName⟩ := known second
  refine Finset.mem_coe.mpr (Finset.mem_image.mpr ⟨(i, j), ?_, ?_⟩)
  · simpa [places] using ⟨below, less⟩
  · simp only [relation, sourceName, targetName]

private theorem finite_nodup {α : Type} {items : Set α} (finite : items.Finite) :
    {list : List α | list.Nodup ∧ ∀ item ∈ list, item ∈ items}.Finite := by
  classical
  have := finite.to_subtype
  apply ((List.finite_length_le items finite.toFinset.card).image (List.map Subtype.val)).subset
  rintro list ⟨distinct, inside⟩
  refine ⟨list.attachWith (· ∈ items) inside, ?_, by simp⟩
  have short : list.toFinset.card ≤ finite.toFinset.card :=
    Finset.card_le_card fun item member => finite.mem_toFinset.mpr (inside item (by simpa using member))
  simpa [List.toFinset_card_of_nodup distinct] using short

/-- Only the registered names have relations, so two rounds that agree on them agree. -/
theorem family_ext (ready : grammar.Ready) {first later : Nat}
    (same : ∀ name ∈ grammar.nonterminals.keys,
      grammar.family first name = grammar.family later name) :
    grammar.family first = grammar.family later := by
  funext name
  by_cases defined : grammar.Defines name
  · exact same name (ready.mem_keys_iff.mpr defined)
  · rw [family_of_not_defined defined, family_of_not_defined defined]

private theorem exists_family_eq (ready : grammar.Ready) :
    ∃ first later, first < later ∧ grammar.family first = grammar.family later := by
  -- Each of the registered names has finitely many relations, without repetition.
  let names := {name // name ∈ grammar.nonterminals.keys}
  have : Finite names := List.finite_toSet grammar.nonterminals.keys
  let possible (name : names) : Set (List Dependency) :=
    {list | list.Nodup ∧ ∀ d ∈ list, grammar.Relates name.1 d}
  have finite : (Set.pi Set.univ possible).Finite :=
    Set.Finite.pi fun name => finite_nodup (finite_relates grammar name.1)
  have inside (round : Nat) :
      (fun name : names => (grammar.family round name.1).entries) ∈ Set.pi Set.univ possible :=
    fun name _ => ⟨(nodup_keys_family grammar round name.1).of_map _,
      ready.within_family round name.1⟩
  obtain ⟨first, later, less, same⟩ := Set.Finite.exists_lt_map_eq_of_forall_mem inside finite
  refine ⟨first, later, less, family_ext ready fun name member => ?_⟩
  have entries := congrFun same ⟨name, member⟩
  exact congrArg OrderedMap.mk entries

private theorem family_add {first later : Nat} (same : grammar.family first = grammar.family later)
    (further : Nat) : grammar.family (first + further) = grammar.family (later + further) := by
  induction further with
  | zero => exact same
  | succ further ih => exact congrArg grammar.following ih

/-- From some round on, the relations come back after every lap of the same length. -/
theorem exists_lap (ready : grammar.Ready) : ∃ start lap, 0 < lap ∧
    ∀ round, start ≤ round → grammar.family (round + lap) = grammar.family round := by
  obtain ⟨first, later, less, same⟩ := exists_family_eq ready
  refine ⟨first, later - first, by omega, fun round least => ?_⟩
  have back := family_add same (round - first)
  rw [show first + (round - first) = round by omega,
    show later + (round - first) = round + (later - first) by omega] at back
  exact back.symm

/-- Without a stable round no lap is a single round. -/
theorem exists_lap_of_unstable (ready : grammar.Ready)
    (unstable : ∀ round, grammar.stableRound round = false) : ∃ start lap, 1 < lap ∧
      ∀ round, start ≤ round → grammar.family (round + lap) = grammar.family round := by
  obtain ⟨start, lap, positive, back⟩ := exists_lap ready
  refine ⟨start, lap, ?_, back⟩
  by_contra single
  obtain rfl : lap = 1 := by omega
  have repeated := back (start + 1) (Nat.le_succ start)
  have stable := stable_of_related_eq ready (Nat.succ_ne_zero start)
    (congrArg Family.Related repeated)
  rw [unstable] at stable
  cases stable

/-- Relations that change in one round and are back after the next go back and forth forever. -/
theorem unstable_of_back (ready : grammar.Ready) (back : grammar.family 2 = grammar.family 0)
    (changes : (grammar.family 1).Related ≠ (grammar.family 0).Related) (round : Nat) :
    grammar.stableRound round = false := by
  have even (half : Nat) : grammar.family (2 * half) = grammar.family 0 := by
    induction half with
    | zero => rfl
    | succ half ih =>
      rw [show 2 * (half + 1) = 2 + 2 * half by omega, family_add back (2 * half), Nat.zero_add, ih]
  have odd (half : Nat) : grammar.family (2 * half + 1) = grammar.family 1 :=
    congrArg grammar.following (even half)
  refine Bool.eq_false_iff.mpr fun stable => ?_
  have same := related_eq_of_stable ready stable
  obtain ⟨half, rfl | rfl⟩ : ∃ half, round = 2 * half ∨ round = 2 * half + 1 :=
    ⟨round / 2, by omega⟩
  · rw [odd, even] at same
    exact changes same
  · rw [show 2 * half + 1 + 1 = 2 * (half + 1) by omega, odd, even] at same
    exact changes same.symm

end Grammar

namespace Study
variable {reading : Reading} {text : List Char} {grammar : Grammar}

private theorem Analyzes.withLimit (runs : Analyzes reading text grammar) (limit : Nat) :
    Analyzes { reading with roundLimit := limit } text grammar :=
  ⟨runs.filled, runs.read, runs.asked⟩

/-- In a round whose children have no relation, `b` depends on `a`. In the next round the search from
`a` meets the cycle through the child before it comes to `b`, and finds nothing. -/
def alternating : List Char := "S -> S : b[0] = a[0]; a[1] = a[0]; a[0] = b[1]".toList

private theorem unstable_alternating : ∃ grammar, Analyzes { roundLimit := 0 } alternating grammar ∧
    grammar.errors = [] ∧ grammar.nonterminals.keys = ["S"] ∧
      ∀ round, grammar.stableRound round = false := by
  let edge : Edge := ⟨⟨0, "a"⟩, ⟨0, "b"⟩⟩
  have facts : ∃ grammar, Analyzes { roundLimit := 0 } alternating grammar ∧ grammar.errors = [] ∧
      grammar.nonterminals.keys = ["S"] ∧ (grammar.family 1 "S").keys = [edge] ∧
        grammar.family 2 "S" = ∅ :=
    ⟨_, ⟨by cbv, by cbv, by cbv⟩, by cbv, by cbv, by cbv, by cbv⟩
  obtain ⟨grammar, runs, errors, names, first, second⟩ := facts
  have back : grammar.family 2 = grammar.family 0 := by
    refine Grammar.family_ext runs.ready fun name member => ?_
    obtain rfl : name = "S" := by simpa [names] using member
    exact second
  have found : (grammar.family 1).Related "S" "a" "b" := by
    change edge ∈ (grammar.family 1 "S").keys
    simp [first]
  have missed : ¬ (grammar.family 0).Related "S" "a" "b" := List.not_mem_nil
  exact ⟨grammar, runs, errors, names,
    Grammar.unstable_of_back runs.ready back fun same => missed (same ▸ found)⟩

private theorem ends_at_stable (runs : Analyzes reading text grammar) {last : Nat}
    (stable : grammar.stableRound last = true)
    (unstable : ∀ other < last, grammar.stableRound other = false) (limit : Nat) :
    (last < limit → ∃ study, ofCharacters { reading with roundLimit := limit } text = .ok study ∧
      study.analysis.stability.roundCount = last + 1) ∧
    (limit ≤ last →
      ofCharacters { reading with roundLimit := limit } text = .error .roundsExhausted) := by
  have least {other : Nat} (ends : grammar.stableRound other = true) : last ≤ other := by
    by_contra before
    rw [unstable other (by omega)] at ends
    cases ends
  rcases (runs.withLimit limit).cases with
    ⟨other, analysis, less, ends, first, went, shows⟩ | ⟨never, went⟩
  · have same : other = last := by
      apply le_antisymm _ (least ends)
      by_contra late
      rw [first last (by omega)] at stable
      cases stable
    subst same
    exact ⟨fun _ => ⟨_, went, by simp [Stability.roundCount, shows.marks]⟩,
      fun short => absurd less (Nat.not_lt_of_le short)⟩
  · refine ⟨fun enough => ?_, fun _ => went⟩
    rw [never last enough] at stable
    cases stable

private theorem exhausts_of_unstable (runs : Analyzes reading text grammar)
    (unstable : ∀ round, grammar.stableRound round = false) (limit : Nat) :
    ofCharacters { reading with roundLimit := limit } text = .error .roundsExhausted := by
  rcases (runs.withLimit limit).cases with ⟨last, _, _, ends, _⟩ | ⟨_, went⟩
  · rw [unstable last] at ends
    cases ends
  · exact went

private theorem history_of_unstable (ready : grammar.Ready)
    (unstable : ∀ round, grammar.stableRound round = false) {name : String}
    (defined : grammar.Defines name) {round limit : Nat} (inside : round < limit) :
    ((Analysis.run limit grammar {}).state.history name)[round]? =
      some (grammar.snapshot round name) := by
  rcases Analysis.run_cases ready limit with ⟨last, _, _, ends, _⟩ | ⟨final, _, went, shows⟩
  · rw [unstable last] at ends
    cases ends
  · rw [went, Outcome.state, shows.nonterminals name (ready.mem_keys_iff.mpr defined)]
    simp [Grammar.snapshots, inside]

/-- The analysis ends with a stable round, the same whatever the limit, or the grammar is cyclic and
the rounds go on for ever, in laps of at least two rounds that record the same relations again. -/
theorem ends_or_comes_round (runs : Analyzes reading text grammar) :
    (∃ last, ∀ limit,
      (last < limit → ∃ study, ofCharacters { reading with roundLimit := limit } text = .ok study ∧
        study.analysis.stability.roundCount = last + 1) ∧
      (limit ≤ last →
        ofCharacters { reading with roundLimit := limit } text = .error .roundsExhausted)) ∨
    (grammar.Cyclic ∧
      (∀ limit, ofCharacters { reading with roundLimit := limit } text = .error .roundsExhausted) ∧
      ∃ start lap, 1 < lap ∧ ∀ limit round name, start ≤ round → round + lap < limit →
        grammar.Defines name → ∃ earlier later : NonterminalRound,
          ((Analysis.run limit grammar {}).state.history name)[round]? = some earlier ∧
          ((Analysis.run limit grammar {}).state.history name)[round + lap]? = some later ∧
          later.relations = earlier.relations) := by
  have ready := runs.ready
  by_cases stable : ∃ last, grammar.stableRound last = true
  · left
    classical
    refine ⟨Nat.find stable, ends_at_stable runs (Nat.find_spec stable) fun other before => ?_⟩
    exact Bool.eq_false_iff.mpr (Nat.find_min stable before)
  · right
    have unstable (round : Nat) : grammar.stableRound round = false :=
      Bool.eq_false_iff.mpr fun ends => stable ⟨round, ends⟩
    refine ⟨?_, exhausts_of_unstable runs unstable, ?_⟩
    · by_contra acyclic
      obtain ⟨round, _, ends⟩ := Grammar.exists_stable ready acyclic
      exact stable ⟨round, ends⟩
    · obtain ⟨start, lap, more, back⟩ := Grammar.exists_lap_of_unstable ready unstable
      refine ⟨start, lap, more, fun limit round name least inside defined =>
        ⟨grammar.snapshot round name, grammar.snapshot (round + lap) name, ?_, ?_, ?_⟩⟩
      · exact history_of_unstable ready unstable defined (by omega)
      · exact history_of_unstable ready unstable defined inside
      · have further := back (round + 1) (by omega)
        simp only [Grammar.snapshot]
        rw [show round + lap + 1 = round + 1 + lap by omega, further]

theorem comes_round_alternating : ∃ grammar,
    Analyzes { roundLimit := 0 } alternating grammar ∧ grammar.Cyclic ∧
      ∃ start lap, 1 < lap ∧ ∀ limit round, start ≤ round → round + lap < limit →
        ∃ earlier later : NonterminalRound,
          ((Analysis.run limit grammar {}).state.history "S")[round]? = some earlier ∧
          ((Analysis.run limit grammar {}).state.history "S")[round + lap]? = some later ∧
          later.relations = earlier.relations := by
  obtain ⟨grammar, runs, _, names, unstable⟩ := unstable_alternating
  have defined : grammar.Defines "S" := runs.ready.mem_keys_iff.mp (by simp [names])
  rcases ends_or_comes_round runs with ⟨last, ends⟩ | ⟨cyclic, _, start, lap, several, back⟩
  · obtain ⟨study, ended, _⟩ := (ends (last + 1)).1 (Nat.lt_succ_self last)
    obtain ⟨_, final, _, stable, _⟩ := (runs.withLimit (last + 1)).ended ended
    rw [unstable final] at stable
    cases stable
  · exact ⟨grammar, runs, cyclic, start, lap, several, fun limit round least inside =>
      back limit round "S" least inside defined⟩

theorem not_ends_alternating : ∃ grammar,
    ofCharacters { analyze := false, roundLimit := 0 } alternating = .ok { grammar := grammar } ∧
      grammar.errors = [] ∧
      ∀ limit, ofCharacters { roundLimit := limit } alternating = .error .roundsExhausted := by
  obtain ⟨grammar, runs, errors, _, unstable⟩ := unstable_alternating
  refine ⟨grammar, runs.read, errors, fun limit => ?_⟩
  rcases (runs.withLimit limit).cases with ⟨last, _, _, stable, _⟩ | ⟨_, went⟩
  · rw [unstable last] at stable
    cases stable
  · exact went

/-- The last two rounds recorded the same relations of the symbol, and in the same order. -/
def Recurs (study : Study) (name : String) : Prop :=
  ∃ front before last, study.analysis.history name = front ++ [before, last] ∧
    before.relations = last.relations

private theorem family_eq_of_recurs (ready : grammar.Ready) {study : Study} {last : Nat}
    (shows : grammar.ShowsRounds (last + 1) study.analysis)
    (recurs : ∀ name, grammar.Defines name → study.Recurs name) :
    grammar.family (last + 1) = grammar.family last := by
  funext name
  by_cases defined : grammar.Defines name
  · obtain ⟨front, before, final, history, same⟩ := recurs name defined
    rw [shows.nonterminals name (ready.mem_keys_iff.mpr defined)] at history
    have length : last + 1 = front.length + 2 := by
      simpa using congrArg List.length history
    obtain ⟨previous, rfl⟩ : ∃ previous, last = previous + 1 := ⟨front.length, by omega⟩
    rw [Grammar.snapshots_succ, Grammar.snapshots_succ, List.append_assoc] at history
    obtain ⟨_, ends⟩ := List.append_inj history (by simp; omega)
    obtain ⟨rfl, rfl⟩ : grammar.snapshot previous name = before ∧
        grammar.snapshot (previous + 1) name = final := by simpa using ends
    exact same.symm
  · rw [Grammar.family_of_not_defined defined, Grammar.family_of_not_defined defined]

/-- A round more can be played where an analysis ended. It finds the same relations again if the
grammar was not called cyclic, or if the last rounds recorded their relations in the same order. -/
theorem further_round_repeats (runs : Analyzes reading text grammar) {study : Study}
    (ended : ofCharacters reading text = .ok study) :
    ∃ next, Analysis.playRound grammar study.analysis.stability.roundCount study.analysis =
        .done next ∧
      (study.analysis.acyclic = true ∨ (∀ name, grammar.Defines name → study.Recurs name) →
        ∀ name, grammar.Defines name → ∃ last further : NonterminalRound,
          (study.analysis.history name).getLast? = some last ∧
          next.history name = study.analysis.history name ++ [further] ∧
          ∀ edge, edge ∈ further.relations.keys ↔ edge ∈ last.relations.keys) := by
  have ready := runs.ready
  obtain ⟨_, last, _, stable, _, shows⟩ := runs.ended ended
  have count : study.analysis.stability.roundCount = last + 1 := by
    simp [Stability.roundCount, shows.marks]
  obtain ⟨next, played, further⟩ := Analysis.playRound_shows ready shows
  refine ⟨next, by rw [count, played], fun steady name defined => ?_⟩
  have member := ready.mem_keys_iff.mpr defined
  have related : (grammar.family (last + 2)).Related = (grammar.family (last + 1)).Related := by
    rcases steady with acyclic | recurs
    · have quiet := (Grammar.acyclic_showsRounds ready shows).mp acyclic
      obtain ⟨least, notCyclic⟩ :=
        Grammar.related_eq_least_of_stable ready stable (quiet last (Nat.lt_succ_self last))
      have repeated := Grammar.related_eq_of_stable ready stable
      calc (grammar.family (last + 2)).Related
          = grammar.project (grammar.family (last + 1)).Related :=
            Grammar.related_following_eq ready (ready.within_family (last + 1))
              (Grammar.quiet_of_not_cyclic ready notCyclic (last + 1))
        _ = grammar.project grammar.leastRelations := by rw [repeated, least]
        _ = grammar.leastRelations := grammar.project.map_lfp
        _ = (grammar.family (last + 1)).Related := by rw [repeated, least]
    · have same := family_eq_of_recurs ready shows recurs
      exact congrArg (fun family => (grammar.following family).Related) same
  refine ⟨grammar.snapshot last name, grammar.snapshot (last + 1) name, ?_, ?_, fun edge => ?_⟩
  · simp [shows.nonterminals name member]
  · rw [further.nonterminals name member, shows.nonterminals name member, Grammar.snapshots_succ]
  · simp only [Grammar.snapshot, Grammar.mem_keys_family ready, related]

def oneRelation : List Char := "S -> : b[0] = a[0]".toList

theorem further_round_repeats_oneRelation : ∃ study next last further,
    ofCharacters { roundLimit := 2 } oneRelation = .ok study ∧
      Analysis.playRound study.grammar study.analysis.stability.roundCount study.analysis =
        .done next ∧
      (study.analysis.history "S").getLast? = some last ∧
      next.history "S" = study.analysis.history "S" ++ [further] ∧
      ∀ edge, edge ∈ further.relations.keys ↔ edge ∈ last.relations.keys := by
  have facts : ∃ grammar, Analyzes { roundLimit := 2 } oneRelation grammar ∧
      grammar.nonterminals.keys = ["S"] :=
    ⟨_, ⟨by cbv, by cbv, by cbv⟩, by cbv⟩
  have ended : ∃ study, ofCharacters { roundLimit := 2 } oneRelation = .ok study ∧
      study.analysis.acyclic = true :=
    ⟨_, by cbv, by cbv⟩
  obtain ⟨grammar, runs, names⟩ := facts
  obtain ⟨study, ended, acyclic⟩ := ended
  obtain ⟨next, played, same⟩ := further_round_repeats runs ended
  obtain ⟨last, further, final, history, keys⟩ :=
    same (Or.inl acyclic) "S" (runs.ready.mem_keys_iff.mp (by simp [names]))
  obtain ⟨rfl, _⟩ := runs.ended ended
  exact ⟨study, next, last, further, ended, played, final, history, keys⟩

/-- Two rounds record the same relations, but in a different order, and so the next search from `b`
meets its cycle later. -/
def shifting : List Char :=
  "S -> S : c[0] = a[1]; b[1] = b[0]; a[1] = b[0]; b[1] = a[0]; a[0] = c[1]".toList

theorem further_round_differs_shifting : ∃ study next last further,
    ofCharacters { roundLimit := 9 } shifting = .ok study ∧ study.grammar.errors = [] ∧
      Analysis.playRound study.grammar study.analysis.stability.roundCount study.analysis =
        .done next ∧
      (study.analysis.history "S").getLast? = some last ∧
      next.history "S" = study.analysis.history "S" ++ [further] ∧
      (⟨⟨0, "a"⟩, ⟨0, "c"⟩⟩ : Edge) ∈ further.relations.keys ∧
      (⟨⟨0, "a"⟩, ⟨0, "c"⟩⟩ : Edge) ∉ last.relations.keys :=
  ⟨_, _, _, _, by cbv, by cbv, by cbv, by cbv, by cbv, by decide, by decide⟩

end Study
end AttributeGrammar
