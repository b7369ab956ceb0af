import AttributeGrammar.Proofs.Coherence
import AttributeGrammar.Proofs.History
import AttributeGrammar.Proofs.Matching
import Mathlib

/-! What a second run does to the record of the first.
It starts again with round 0 and finds there what the first run found, so it writes into the old
snapshots what they have already, and the snapshots that it opens stay empty. In its round 1 a
nonterminal has too many snapshots to tell which of them is of the round before.
-/
namespace AttributeGrammar

namespace Grammar
variable {grammar : Grammar} {rule : Rule} {number round : Nat} {name : String}

/-- Dependencies that the rule resolves, written again over relations that it resolves, too. -/
theorem insertAll_of_resolves {relations : Relations} (sound : rule.Sound)
    (distinct : relations.keys.Nodup) (resolved : ∀ d ∈ relations.entries, rule.Resolves d)
    {written : List Dependency} (resolves : ∀ d ∈ written, rule.Resolves d)
    (present : ∀ d ∈ written, d.1 ∈ relations.keys) : relations.insertAll written = relations := by
  refine OrderedMap.insertAll_of_mem distinct fun d member => ?_
  obtain ⟨positions, kept⟩ := OrderedMap.exists_of_mem_keys (present d member)
  have same : (d.1, positions) = d := (resolves d member).unique sound (resolved _ kept) rfl
  rwa [same] at kept

/-- What a round found in a rule stands in the snapshot of the rule. -/
theorem record_ruleSnapshot (ready : grammar.Ready) (found : grammar.rules[number]? = some rule) :
    RuleRound.record (grammar.graph (grammar.family round) rule).findings
      (grammar.ruleSnapshot round number) = grammar.ruleSnapshot round number := by
  have sound := ready.sound rule (List.mem_of_getElem? found)
  have projected : (grammar.ruleSnapshot round number).projections.insertAll
      (grammar.graph (grammar.family round) rule).findings.projections =
        (grammar.ruleSnapshot round number).projections := by
    rw [projections_graph found]
    refine insertAll_of_resolves sound (nodup_ruleSnapshot round number).1
      (resolves_ruleSnapshot ready found round).2 (resolves_projections ready found round) ?_
    intro d member
    exact mem_projections_ruleSnapshot.mpr (List.mem_map_of_mem member)
  have starts : (grammar.graph (grammar.family round) rule).findings.cycleStarts ⊆
      (grammar.ruleSnapshot round number).cycleStarts := by
    intro start member
    rw [ruleSnapshot, found]
    exact Sequence.mem_addMissing.mpr (Or.inr member)
  rw [RuleRound.record, projected, Sequence.addMissing_of_subset starts]

/-- What a round found in a rule stands in the snapshot of its left side. -/
theorem insertAll_family (ready : grammar.Ready) (listed : number ∈ grammar.numbersOf name) :
    (grammar.family (round + 1) name).insertAll (grammar.projections (grammar.family round) number) =
      grammar.family (round + 1) name := by
  obtain ⟨rule, found, named⟩ := mem_numbersOf.mp listed
  have kept := List.mem_of_getElem? found
  refine insertAll_of_resolves (ready.sound rule kept) (grammar.nodup_keys_family (round + 1) name)
    ?_ (resolves_projections ready found round) ?_
  · intro d member
    exact ready.resolves_relation kept named (ready.within_family (round + 1) name d member)
  · intro d member
    exact OrderedMap.mem_keys_insertAll.mpr
      (Or.inr (List.mem_map_of_mem (List.mem_flatMap.mpr ⟨number, listed, member⟩)))

private theorem redecorated_zero (grammar : Grammar) (rule : Rule) :
    grammar.redecorated (grammar.family 0) rule = [] := by
  rw [redecorated, List.flatMap_eq_nil_iff]
  intro child _
  split <;> rfl

end Grammar

namespace Analysis
variable {grammar : Grammar} {before analysis : Analysis} {opened : List String} {played : List Nat}
  {rounds : Nat}

/-- What `after` adds to `before` while a second run is in its round 0: an empty snapshot for every
nonterminal that was opened and every rule that was played, and the mark of the round. -/
structure Appended (before : Analysis) (opened : List String) (played : List Nat)
    (after : Analysis) : Prop where
  nonterminals : ∀ name, after.history name =
    before.history name ++ if name ∈ opened then [({} : NonterminalRound)] else []
  rules : ∀ number, after.rule number =
    if number ∈ played then ⟨(before.rule number).history ++ [({} : RuleRound)], []⟩
    else before.rule number
  marks : after.stability.marks = before.stability.marks ++ [true]
  acyclic : after.acyclic = before.acyclic

/-- Nothing that is recorded in `before` was changed, and all else stands behind it. -/
structure Extends (before after : Analysis) : Prop where
  nonterminals : ∀ name, before.history name <+: after.history name
  rules : ∀ number, (before.rule number).history <+: (after.rule number).history
  marks : before.stability.marks <+: after.stability.marks
  acyclic : after.acyclic = before.acyclic

theorem Appended.extends (state : Appended before opened played analysis) :
    before.Extends analysis := by
  refine ⟨fun name => ?_, fun number => ?_, ?_, state.acyclic⟩
  · rw [state.nonterminals]
    exact List.prefix_append _ _
  · rw [state.rules]
    split
    · exact List.prefix_append _ _
    · exact List.prefix_refl _
  · rw [state.marks]
    exact List.prefix_append _ _

private theorem appended_addRound (before : Analysis) :
    Appended before [] [] { before with stability := before.stability.addRound } := by
  refine ⟨fun name => ?_, fun number => ?_, rfl, rfl⟩
  · exact (List.append_nil _).symm
  · rfl

private theorem appended_opening (state : Appended before opened played analysis) {name : String}
    (new : name ∉ opened) :
    Appended before (opened ++ [name]) played (analysis.opening name) := by
  refine ⟨fun other => ?_, state.rules, state.marks, state.acyclic⟩
  rw [opening, history_withHistory]
  by_cases same : other = name
  · subst same
    simp [state.nonterminals, new]
  · simp [state.nonterminals, same]

/-! ### Round 0 once more -/

private theorem Appended.history_zero (state : Appended before opened played analysis)
    (begun : grammar.ShowsRounds rounds before) (begins : 0 < rounds) {name : String}
    (known : name ∈ grammar.nonterminals.keys) :
    (analysis.history name)[0]? = some (grammar.snapshot 0 name) := by
  rw [state.nonterminals, begun.nonterminals name known, List.getElem?_append_left (by simpa),
    Grammar.snapshots, Sequence.getElem?_map_range_iff]
  exact ⟨begins, rfl⟩

/-- The children have no relations before round 0, whatever their histories are. -/
theorem redecorate_zero (ready : grammar.Ready) {rule : Rule} (kept : rule ∈ grammar.rules) :
    redecorate grammar 0 analysis (rule.symbols.zipIdx.drop 1) =
      (grammar.redecorated (grammar.family 0) rule, none) :=
  redecorate_spec (fun _ _ _ => ⟨{}, rfl, rfl⟩) fun _ member =>
    ready.names_child (ready.within_family 0) kept (Grammar.mem_children.mp member).2

/-- Relations that the first snapshot of the nonterminal has already. -/
theorem history_recordRelations_zero (ready : grammar.Ready) {name : String} {number : Nat}
    (listed : number ∈ grammar.numbersOf name)
    (first : (analysis.history name)[0]? = some (grammar.snapshot 0 name)) (other : String) :
    (analysis.recordRelations name 0 (grammar.projections (grammar.family 0) number)).history other =
      analysis.history other := by
  rw [recordRelations, history_withHistory]
  split
  · next same =>
    rw [same]
    refine Sequence.modify_of_getElem? first ?_
    rw [Grammar.snapshot, Grammar.insertAll_family ready listed]
  · rfl

/-- The searches find again what stands in the old snapshot of the rule. -/
theorem playRule_zero (ready : grammar.Ready) (begun : grammar.ShowsRounds rounds before)
    (begins : 0 < rounds) (state : Appended before opened played analysis) {name : String}
    {number : Nat} {rule : Rule} (found : grammar.rules[number]? = some rule)
    (new : number ∉ played) :
    playRule grammar 0 name number analysis = .done
      { (analysis.withRule number
          ⟨(before.rule number).history ++ [({} : RuleRound)], []⟩).recordRelations name 0
            (grammar.projections (grammar.family 0) number) with
        acyclic := before.acyclic } := by
  have kept := List.mem_of_getElem? found
  have below := (List.getElem?_eq_some_iff.mp found).1
  have same : analysis.rule number = before.rule number := by rw [state.rules, if_neg new]
  have first : ((analysis.rule number).history ++ [({} : RuleRound)])[0]? =
      some (grammar.ruleSnapshot 0 number) := by
    rw [same, begun.rules number below, Grammar.history_progress, List.getElem?_append_left (by simpa),
      Sequence.getElem?_map_range_iff]
    exact ⟨begins, rfl⟩
  have recorded : RuleRound.record (grammar.graph (grammar.family 0) rule).findings
      { grammar.ruleSnapshot 0 number with
        redecorated := (grammar.ruleSnapshot 0 number).redecorated.insertAll
          (grammar.redecorated (grammar.family 0) rule) } = grammar.ruleSnapshot 0 number := by
    rw [grammar.redecorated_zero]
    exact Grammar.record_ruleSnapshot ready found
  -- A cycle that is found now was found by the first run, too, which has told so.
  have verdict : (before.acyclic &&
      (grammar.graph (grammar.family 0) rule).findings.cycleStarts.isEmpty) = before.acyclic := by
    rw [Bool.and_eq_left_iff_imp, List.isEmpty_iff]
    intro acyclic
    have quiet := begun.acyclic.mp acyclic number below 0 begins
    rw [← Grammar.record_ruleSnapshot ready found, RuleRound.cycleFound_record] at quiet
    exact quiet.2
  rw [playRule_spec found first (ready.sound_graph (ready.within_family 0) kept)
    (redecorate_zero ready kept) recorded, Sequence.set_of_getElem? first, same,
    grammar.redecorated_zero, state.acyclic, verdict]

private theorem playRule_appended (ready : grammar.Ready) (begun : grammar.ShowsRounds rounds before)
    (begins : 0 < rounds) (state : Appended before opened played analysis) {name : String}
    {number : Nat} (listed : number ∈ grammar.numbersOf name) (new : number ∉ played) :
    ∃ next, playRule grammar 0 name number analysis = .done next ∧
      Appended before opened (played ++ [number]) next := by
  obtain ⟨rule, found, named⟩ := Grammar.mem_numbersOf.mp listed
  have known : name ∈ grammar.nonterminals.keys :=
    ready.mem_keys_iff.mpr ⟨rule, List.mem_of_getElem? found, named⟩
  have first := state.history_zero begun begins known
  refine ⟨_, playRule_zero ready begun begins state found new, fun other => ?_, fun other => ?_,
    state.marks, rfl⟩
  · rw [← state.nonterminals]
    exact history_recordRelations_zero ready listed first other
  · change (analysis.withRule number _).rule other = _
    rw [rule_withRule]
    by_cases same : other = number
    · simp [same]
    · simp [same, state.rules]

private theorem Appended.mark_zero (state : Appended before opened played analysis)
    (begun : grammar.ShowsRounds rounds before) (begins : 0 < rounds) {name : String}
    (known : name ∈ grammar.nonterminals.keys) : analysis.stability.marks[0]? = some false := by
  rw [state.marks, begun.marks, List.getElem?_append_left (by simpa),
    Sequence.getElem?_map_range_iff]
  exact ⟨begins, Grammar.stableRound_zero (List.ne_nil_of_mem known)⟩

/-- The round was unstable before, and its mark says so. -/
theorem judge_appended (begun : grammar.ShowsRounds rounds before) (begins : 0 < rounds)
    (state : Appended before opened played analysis) {name : String}
    (known : name ∈ grammar.nonterminals.keys) (previous : NonterminalRound) :
    judge 0 name previous analysis = .done analysis := by
  have first := state.history_zero begun begins known
  have mark := state.mark_zero begun begins known
  have inside := (List.getElem?_eq_some_iff.mp mark).1
  have marked : analysis.stability.markUnstable (0 : Nat) = .ok analysis.stability := by
    rw [Stability.markUnstable_of_lt inside, Sequence.set_of_getElem? mark]
  simp only [judge, first, ne_eq, not_true_eq_false, false_and, if_false]
  rw [marked]

private theorem played_rules_appended (ready : grammar.Ready)
    (begun : grammar.ShowsRounds rounds before)
    (begins : 0 < rounds) {passed rest : List (String × List Nat)} {entry : String × List Nat}
    (split : grammar.nonterminals.entries = passed ++ entry :: rest)
    (state : Appended before (passed.map Prod.fst) (passed.flatMap Prod.snd) analysis)
    {played others : List Nat} (numbers : entry.2 = played ++ others) :
    ∃ next, Outcome.through (playRule grammar 0 entry.1) played (analysis.opening entry.1) =
        .done next ∧
      Appended before (passed.map Prod.fst ++ [entry.1]) (passed.flatMap Prod.snd ++ played) next := by
  have known : entry ∈ grammar.nonterminals.entries := by simp [split]
  refine Outcome.through_done (fun done =>
    Appended before (passed.map Prod.fst ++ [entry.1]) (passed.flatMap Prod.snd ++ done)) played
    ?_ fun done number later order analysis state => ?_
  · rw [List.append_nil]
    exact appended_opening state (not_passed ready split)
  · have place : entry.2 = done ++ number :: (later ++ others) := by simp [numbers, order]
    have present : number ∈ entry.2 := by simp [place]
    have new : number ∉ passed.flatMap Prod.snd ++ done := by
      rw [List.mem_append, not_or]
      exact ⟨not_played ready split present, not_mem_before ready known place⟩
    rw [numbers_of_mem ready known] at present
    rw [← List.append_assoc]
    exact playRule_appended ready begun begins state present new

private theorem playNonterminal_appended (ready : grammar.Ready)
    (begun : grammar.ShowsRounds rounds before)
    (begins : 0 < rounds) {passed rest : List (String × List Nat)} {entry : String × List Nat}
    (split : grammar.nonterminals.entries = passed ++ entry :: rest)
    (state : Appended before (passed.map Prod.fst) (passed.flatMap Prod.snd) analysis) :
    ∃ next, playNonterminal grammar 0 entry analysis = .done next ∧
      Appended before ((passed ++ [entry]).map Prod.fst) ((passed ++ [entry]).flatMap Prod.snd)
        next := by
  have known : entry.1 ∈ grammar.nonterminals.keys :=
    OrderedMap.mem_keys_of_mem (by simp [split])
  obtain ⟨next, went, finished⟩ :=
    played_rules_appended ready begun begins split state (List.append_nil entry.2).symm
  rw [opening] at went
  have judged := judge_appended begun begins finished known {}
  refine ⟨next, ?_, by simpa using finished⟩
  have unopened (history : List NonterminalRound) :
      previousRound entry.1 history (0 : Nat) = .ok {} := rfl
  simp only [playNonterminal, unopened, went, Outcome.done_andThen, judged]

private theorem played_nonterminals_appended (ready : grammar.Ready)
    (begun : grammar.ShowsRounds rounds before) (begins : 0 < rounds)
    {passed rest : List (String × List Nat)}
    (split : grammar.nonterminals.entries = passed ++ rest) :
    ∃ next, Outcome.through (playNonterminal grammar 0) passed
        { before with stability := before.stability.addRound } = .done next ∧
      Appended before (passed.map Prod.fst) (passed.flatMap Prod.snd) next :=
  Outcome.through_done (fun done => Appended before (done.map Prod.fst) (done.flatMap Prod.snd))
    passed (appended_addRound before) fun done entry later order _ state => by
      have place : grammar.nonterminals.entries = done ++ entry :: (later ++ rest) := by
        simp [split, order]
      exact playNonterminal_appended ready begun begins place state

private theorem During.appended (ready : grammar.Ready) (begun : grammar.ShowsRounds rounds before)
    (begins : 0 < rounds) (during : During grammar 0 before analysis) :
    ∃ opened played, Appended before opened played analysis := by
  cases during with
  | passed split nonterminals =>
    obtain ⟨_, went, state⟩ := played_nonterminals_appended ready begun begins split
    obtain rfl := Outcome.done.inj (nonterminals.symm.trans went)
    exact ⟨_, _, state⟩
  | opened split nonterminals numbers rules =>
    obtain ⟨_, went, state⟩ := played_nonterminals_appended ready begun begins split
    obtain rfl := Outcome.done.inj (nonterminals.symm.trans went)
    obtain ⟨_, went, state⟩ := played_rules_appended ready begun begins split state numbers
    obtain rfl := Outcome.done.inj (rules.symm.trans went)
    exact ⟨_, _, state⟩

/-! ### Round 1 once more -/

/-- Two snapshots or more of the first run, one of the new round 0 and one of the new round 1: more
than the look-up allows for. -/
theorem previousRound_unclear (name : String) {history : List NonterminalRound}
    (length : history.length = rounds + 2) (many : 2 ≤ rounds) :
    previousRound name history 1 = .error (.previousUnclear name (rounds + 2) 1) := by
  have neither : ¬ ((history.length : Int) = 1 ∨ (history.length : Int) = 1 + 1) := by omega
  have place : previousPlace name history.length 1 =
      .error (.previousUnclear name (rounds + 2) 1) := by
    rw [previousPlace, if_neg (by decide), if_neg (by decide), if_neg neither, length]
  rw [previousRound, place]
  rfl

private theorem playRound_stops {entry : String × List Nat} {rest : List (String × List Nat)}
    (split : grammar.nonterminals.entries = entry :: rest)
    (length : (analysis.history entry.1).length = rounds + 1) (many : 2 ≤ rounds) :
    playRound grammar 1 analysis = .stopped (.previousUnclear entry.1 (rounds + 2) 1)
      (opening entry.1 { analysis with stability := analysis.stability.addRound }) := by
  have opened : ((opening entry.1 { analysis with
      stability := analysis.stability.addRound }).history entry.1).length = rounds + 2 := by
    rw [opening, history_withHistory, if_pos rfl, List.length_append]
    exact congrArg (· + 1) length
  have unclear := previousRound_unclear entry.1 opened many
  rw [opening] at unclear
  rw [playRound, split, Outcome.through, playNonterminal]
  simp only [Nat.cast_one, unclear]
  rfl

/-- What a second run leaves when it stops: behind the record of the first run there is an empty
snapshot for each rule and each nonterminal, and one more for the nonterminal that it asked for. -/
structure StopsAt (grammar : Grammar) (first : String) (before after : Analysis) : Prop where
  nonterminals : ∀ name ∈ grammar.nonterminals.keys, after.history name =
    before.history name ++ if name = first then [({} : NonterminalRound), {}] else [{}]
  rules : ∀ number < grammar.rules.length,
    after.rule number = ⟨(before.rule number).history ++ [({} : RuleRound)], []⟩
  marks : after.stability.marks = before.stability.marks ++ [true, true]
  extended : before.Extends after

private theorem Appended.stopsAt (ready : grammar.Ready) {entry : String × List Nat}
    {rest : List (String × List Nat)} (split : grammar.nonterminals.entries = entry :: rest)
    (state : Appended before grammar.nonterminals.keys
      (grammar.nonterminals.entries.flatMap Prod.snd) analysis) :
    StopsAt grammar entry.1 before
      (opening entry.1 { analysis with stability := analysis.stability.addRound }) := by
  have known : entry.1 ∈ grammar.nonterminals.keys :=
    OrderedMap.mem_keys_of_mem (by simp [split])
  have history (name : String) : (opening entry.1 { analysis with
      stability := analysis.stability.addRound }).history name =
        if name = entry.1 then before.history name ++ [({} : NonterminalRound), {}]
        else analysis.history name := by
    rw [opening, history_withHistory]
    split
    · next same =>
      change analysis.history entry.1 ++ [({} : NonterminalRound)] = _
      rw [state.nonterminals, if_pos known, List.append_assoc, same]
      rfl
    · rfl
  have marks : (analysis.stability.addRound).marks = before.stability.marks ++ [true, true] := by
    rw [Stability.addRound, state.marks, List.append_assoc]
    rfl
  refine ⟨fun name member => ?_, fun number below => ?_, marks, fun name => ?_, fun number => ?_,
    ?_, state.acyclic⟩
  · rw [history, state.nonterminals, if_pos member]
    split <;> rfl
  · change analysis.rule number = _
    rw [state.rules, if_pos (mem_numbers ready below)]
  · rw [history]
    split
    · exact List.prefix_append _ _
    · exact state.extends.nonterminals name
  · exact state.extends.rules number
  · exact marks ▸ List.prefix_append _ _

/-- The first run has two rounds at least, as round 0 is never stable. -/
theorem exists_rounds_of_done (ready : grammar.Ready) (filled : grammar.nonterminals.keys ≠ [])
    {limit : Nat} (ended : run limit grammar {} = .done analysis) :
    ∃ rounds, 2 ≤ rounds ∧ grammar.ShowsRounds rounds analysis := by
  rcases run_cases ready limit with ⟨last, final, _, stable, _, went, shows⟩ | ⟨_, _, exhausted, _⟩
  · obtain rfl := Outcome.done.inj (ended.symm.trans went)
    refine ⟨last + 1, ?_, shows⟩
    by_contra few
    obtain rfl : last = 0 := by omega
    rw [Grammar.stableRound_zero filled] at stable
    cases stable
  · rw [exhausted] at ended
    cases ended

/-- A run on what a run recorded. -/
theorem run_again (ready : grammar.Ready) (begun : grammar.ShowsRounds rounds before)
    (many : 2 ≤ rounds) {entry : String × List Nat} {rest : List (String × List Nat)}
    (split : grammar.nonterminals.entries = entry :: rest) :
    ∃ played after, playRound grammar 0 before = .done played ∧
      playRound grammar 1 played = .stopped (.previousUnclear entry.1 (rounds + 2) 1) after ∧
      StopsAt grammar entry.1 before after ∧ ∀ further, 2 ≤ further →
        run further grammar before = .stopped (.previousUnclear entry.1 (rounds + 2) 1) after := by
  have begins : 0 < rounds := by omega
  have known : entry.1 ∈ grammar.nonterminals.keys :=
    OrderedMap.mem_keys_of_mem (by simp [split])
  obtain ⟨played, went, state⟩ := played_nonterminals_appended ready begun begins
    (List.append_nil grammar.nonterminals.entries).symm
  have length : (played.history entry.1).length = rounds + 1 := by
    rw [state.nonterminals, if_pos (by exact known), begun.nonterminals _ known, List.length_append,
      Grammar.length_snapshots]
    rfl
  have first : playRound grammar 0 before = .done played := went
  have second := playRound_stops split length many
  have mark : played.stability.marks[0]? = some false := state.mark_zero begun begins known
  have unstable : played.stability.isUnstable (0 : Nat) = .ok true := by
    rw [Stability.isUnstable, Sequence.item, Sequence.item?_ofNat, mark]
    rfl
  refine ⟨played, _, first, second, state.stopsAt ready split, fun further enough => ?_⟩
  obtain ⟨fuel, rfl⟩ := Nat.exists_eq_add_of_le' enough
  simp only [run, runFrom, first, unstable, second, Outcome.andThen]

end Analysis

namespace Study
open Analysis
variable {reading : Reading} {text : List Char} {grammar : Grammar} {analysis : Analysis}

/-- A second run on a grammar that was read plays its round 0 and stops in its round 1, where the
number of snapshots of the first nonterminal does not tell which one is of the round before. At each
moment until then all that the first run recorded stands as it was, with what is new behind it. -/
theorem second_run_stops
    (read : ofCharacters reading text = .ok { grammar := grammar }) (kept : grammar.rules ≠ [])
    {limit : Nat} (ended : run limit grammar {} = .done analysis) :
    ∃ rounds first, 2 ≤ rounds ∧ analysis.stability.roundCount = rounds ∧
      (∀ name ∈ grammar.nonterminals.keys, (analysis.history name).length = rounds) ∧
      (∀ number < grammar.rules.length, (analysis.rule number).history.length = rounds) ∧
      grammar.nonterminals.keys.head? = some first ∧
      (∀ moment, During grammar 0 analysis moment → analysis.Extends moment ∧
        ∃ opened played, analysis.Appended opened played moment) ∧
      ∃ played after, playRound grammar 0 analysis = .done played ∧
        playRound grammar 1 played = .stopped (.previousUnclear first (rounds + 2) 1) after ∧
        previousRound first (after.history first) 1 =
          .error (.previousUnclear first (rounds + 2) 1) ∧
        StopsAt grammar first analysis after ∧ ∀ further, 2 ≤ further →
          run further grammar analysis = .stopped (.previousUnclear first (rounds + 2) 1) after := by
  have ready := ready_of_read read
  obtain ⟨rule, member⟩ := List.exists_mem_of_ne_nil _ kept
  obtain ⟨name, _, named⟩ := ready.registered rule member
  have filled : grammar.nonterminals.keys ≠ [] :=
    List.ne_nil_of_mem (ready.mem_keys_iff.mpr ⟨rule, member, named⟩)
  obtain ⟨rounds, many, shows⟩ := exists_rounds_of_done ready filled ended
  obtain ⟨entry, rest, split⟩ : ∃ entry rest, grammar.nonterminals.entries = entry :: rest :=
    List.exists_cons_of_ne_nil fun empty => filled (by rw [OrderedMap.keys, empty]; rfl)
  have head : grammar.nonterminals.keys.head? = some entry.1 := by rw [OrderedMap.keys, split]; rfl
  have lengths (other : String) (known : other ∈ grammar.nonterminals.keys) :
      (analysis.history other).length = rounds := length_history ready shows (ready.mem_keys_iff.mp known)
  obtain ⟨played, after, zero, one, stops, again⟩ := run_again ready shows many split
  have known : entry.1 ∈ grammar.nonterminals.keys := List.mem_of_mem_head? head
  have length : (after.history entry.1).length = rounds + 2 := by
    rw [stops.nonterminals _ known, if_pos rfl, List.length_append, lengths _ known]
    rfl
  refine ⟨rounds, entry.1, many, ?_, lengths, fun number below => ?_, head, fun moment during => ?_,
    played, after, zero, one, previousRound_unclear entry.1 length many, stops, again⟩
  · rw [Stability.roundCount, shows.marks, List.length_map, List.length_range]
  · rw [shows.rules number below, Grammar.history_progress, List.length_map, List.length_range]
  · obtain ⟨opened, numbers, state⟩ := during.appended ready shows (by omega)
    exact ⟨state.extends, opened, numbers, state⟩

/-- In round 1 the relation of the second rule, put on the child of the first, closes a cycle. -/
def cycleInLaterRound : List Char :=
  "S -> A : v[0] = v[1]; s[1] = s[0]; s[0] = v[0]\nA -> a : v[0] = s[0]".toList

theorem second_run_stops_cycleInLaterRound : ∃ grammar analysis after,
    ofCharacters { roundLimit := 4, analyze := false } cycleInLaterRound =
      .ok { grammar := grammar } ∧
    run 4 grammar {} = .done analysis ∧ analysis.stability.roundCount = 3 ∧
    run 2 grammar analysis = .stopped (.previousUnclear "S" 5 1) after ∧
    analysis.Extends after ∧ after.acyclic = false := by
  have runs : ∃ grammar analysis, ofCharacters { roundLimit := 4, analyze := false }
      cycleInLaterRound = .ok { grammar := grammar } ∧ grammar.rules.length = 2 ∧
      run 4 grammar {} = .done analysis ∧ analysis.stability.roundCount = 3 ∧
      analysis.acyclic = false ∧ grammar.nonterminals.keys.head? = some "S" :=
    ⟨_, _, by cbv, by cbv, by cbv, by cbv, by cbv, by cbv⟩
  obtain ⟨grammar, analysis, read, length, ended, count, cyclic, head⟩ := runs
  have kept : grammar.rules ≠ [] := by
    rintro empty
    simp [empty] at length
  obtain ⟨rounds, first, _, counted, _, _, named, _, _, after, _, _, _, stops, again⟩ :=
    second_run_stops read kept ended
  obtain rfl : rounds = 3 := counted.symm.trans count
  obtain rfl : first = "S" := Option.some.inj (named.symm.trans head)
  exact ⟨grammar, analysis, after, read, ended, count, again 2 (Nat.le_refl 2), stops.extended,
    stops.extended.acyclic.trans cyclic⟩

end Study
end AttributeGrammar
