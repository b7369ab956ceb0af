import AttributeGrammar.Proofs.Parsing
import AttributeGrammar.Proofs.Verdict
import Mathlib

/-! The histories within a round.
Of all nonterminals just those that the round has come to have one snapshot more than it had rounds
before, so the look-up of the round before, which goes by the number of snapshots, finds the last one
that was there when the round began. Histories only grow at the end.
-/
namespace AttributeGrammar

namespace Analysis
variable {grammar : Grammar} {round : Nat} {before analysis : Analysis} {name : String}

/-- The moments of a round that began with `before`: some nonterminals have passed it, or besides the
next one was opened and some of its rules were played. -/
inductive During (grammar : Grammar) (round : Nat) (before : Analysis) : Analysis → Prop
  | passed {passed rest : List (String × List Nat)} {analysis : Analysis}
      (split : grammar.nonterminals.entries = passed ++ rest)
      (nonterminals : Outcome.through (playNonterminal grammar round) passed
        { before with stability := before.stability.addRound } = .done analysis) :
      During grammar round before analysis
  | opened {passed rest : List (String × List Nat)} {entry : String × List Nat}
      {played others : List Nat} {reached analysis : Analysis}
      (split : grammar.nonterminals.entries = passed ++ entry :: rest)
      (nonterminals : Outcome.through (playNonterminal grammar round) passed
        { before with stability := before.stability.addRound } = .done reached)
      (numbers : entry.2 = played ++ others)
      (rules : Outcome.through (playRule grammar round entry.1) played (reached.opening entry.1) =
        .done analysis) : During grammar round before analysis

/-- At this moment the round looks up the round before of a nonterminal: of the one just opened, or of
a child of the rule that is played next. -/
inductive LooksUp (grammar : Grammar) (round : Nat) (before : Analysis) : String → Analysis → Prop
  | own {passed rest : List (String × List Nat)} {entry : String × List Nat} {reached : Analysis}
      (split : grammar.nonterminals.entries = passed ++ entry :: rest)
      (nonterminals : Outcome.through (playNonterminal grammar round) passed
        { before with stability := before.stability.addRound } = .done reached) :
      LooksUp grammar round before entry.1 (reached.opening entry.1)
  | ofChild {passed rest : List (String × List Nat)} {entry : String × List Nat}
      {played others : List Nat} {number : Nat} {rule : Rule} {child : Symbol}
      {reached analysis : Analysis}
      (split : grammar.nonterminals.entries = passed ++ entry :: rest)
      (nonterminals : Outcome.through (playNonterminal grammar round) passed
        { before with stability := before.stability.addRound } = .done reached)
      (numbers : entry.2 = played ++ number :: others)
      (rules : Outcome.through (playRule grammar round entry.1) played (reached.opening entry.1) =
        .done analysis)
      (found : grammar.rules[number]? = some rule) (member : child ∈ rule.symbols.drop 1)
      (taken : isChild grammar child = true) : LooksUp grammar round before child.name analysis

theorem LooksUp.during (looks : LooksUp grammar round before name analysis) :
    During grammar round before analysis := by
  cases looks with
  | own split nonterminals => exact .opened split nonterminals (List.nil_append _).symm rfl
  | ofChild split nonterminals numbers rules => exact .opened split nonterminals numbers rules

theorem LooksUp.defines (ready : grammar.Ready) (looks : LooksUp grammar round before name analysis) :
    grammar.Defines name := by
  cases looks with
  | own split => exact ready.mem_keys_iff.mp (OrderedMap.mem_keys_of_mem (by simp [split]))
  | ofChild _ _ _ _ _ _ taken => exact ready.isChild_iff.mp taken

/-- Within a round a history is as it was before, but for one snapshot that may be new. -/
structure Grown (grammar : Grammar) (before analysis : Analysis) : Prop where
  nonterminals : ∀ name, grammar.Defines name → ∃ opened : List NonterminalRound,
    opened.length ≤ 1 ∧ analysis.history name = before.history name ++ opened
  rules : ∀ number < grammar.rules.length, ∃ opened : List RuleRound,
    opened.length ≤ 1 ∧ (analysis.rule number).history = (before.rule number).history ++ opened

private theorem grown_of_shows (ready : grammar.Ready) (begun : grammar.ShowsRounds round before)
    {histories : String → List NonterminalRound} {rounds : Nat → Nat} {marks : List Bool}
    (shows : grammar.Shows histories rounds marks analysis)
    (named : ∀ name, ∃ opened : List NonterminalRound, opened.length ≤ 1 ∧
      histories name = grammar.snapshots round name ++ opened)
    (counted : ∀ number, rounds number = round ∨ rounds number = round + 1) :
    Grown grammar before analysis := by
  constructor
  · intro name defined
    have known := ready.mem_keys_iff.mpr defined
    rw [shows.nonterminals name known, begun.nonterminals name known]
    exact named name
  · intro number below
    rw [shows.rules number below, begun.rules number below, Grammar.history_progress,
      Grammar.history_progress]
    rcases counted number with same | further
    · exact ⟨[], by simp, by rw [same, List.append_nil]⟩
    · exact ⟨[grammar.ruleSnapshot round number], by simp, by simp [further, List.range_succ]⟩

theorem During.grown (ready : grammar.Ready) (begun : grammar.ShowsRounds round before)
    (during : During grammar round before analysis) : Grown grammar before analysis := by
  cases during with
  | @passed passed _ _ split nonterminals =>
    obtain ⟨_, went, state⟩ := played_nonterminals ready split begun
    obtain rfl := Outcome.done.inj (nonterminals.symm.trans went)
    refine grown_of_shows ready begun state (fun name => ?_) (fun number => ?_)
    · by_cases already : name ∈ passed.map Prod.fst
      · exact ⟨[grammar.snapshot round name], by simp, by simp [already]⟩
      · exact ⟨[], by simp, by simp [already]⟩
    · split <;> simp
  | @opened passed _ entry played _ reached _ split nonterminals numbers rules =>
    obtain ⟨_, went, state⟩ := played_nonterminals ready split begun
    obtain rfl := Outcome.done.inj (nonterminals.symm.trans went)
    obtain ⟨_, went, state⟩ := played_rules ready split numbers state
    obtain rfl := Outcome.done.inj (rules.symm.trans went)
    refine grown_of_shows ready begun state (fun name => ?_) (fun number => ?_)
    · by_cases same : name = entry.1
      · subst same
        exact ⟨_, by simp, Function.update_self ..⟩
      · rw [Function.update_of_ne same]
        by_cases already : name ∈ passed.map Prod.fst
        · exact ⟨[grammar.snapshot round name], by simp, by simp [already]⟩
        · exact ⟨[], by simp, by simp [already]⟩
    · split <;> simp

/-- The snapshots of the rounds before `round` are a prefix of what a later round has. -/
theorem prefix_of_later (ready : grammar.Ready) (begun : grammar.ShowsRounds round before)
    {later : Nat} {start : Analysis} (beyond : round ≤ later)
    (shows : grammar.ShowsRounds later start) (during : During grammar later start analysis) :
    (∀ name, grammar.Defines name → before.history name <+: analysis.history name) ∧
      ∀ number < grammar.rules.length,
        (before.rule number).history <+: (analysis.rule number).history := by
  have grown := during.grown ready shows
  have earlier : List.range round <+: List.range later := by
    obtain ⟨more, rfl⟩ := Nat.exists_eq_add_of_le beyond
    rw [List.range_add]
    exact List.prefix_append _ _
  constructor
  · intro name defined
    have known := ready.mem_keys_iff.mpr defined
    obtain ⟨opened, _, history⟩ := grown.nonterminals name defined
    rw [history, begun.nonterminals name known, shows.nonterminals name known]
    exact (earlier.map _).trans (List.prefix_append _ _)
  · intro number below
    obtain ⟨opened, _, history⟩ := grown.rules number below
    rw [history, begun.rules number below, shows.rules number below, Grammar.history_progress,
      Grammar.history_progress]
    exact (earlier.map _).trans (List.prefix_append _ _)

theorem length_history (ready : grammar.Ready) (begun : grammar.ShowsRounds round before)
    (defined : grammar.Defines name) : (before.history name).length = round := by
  rw [begun.nonterminals name (ready.mem_keys_iff.mpr defined), Grammar.length_snapshots]

/-! ### Nonterminals without rules -/

variable {number : Nat} {other : String} {next : Analysis}

private theorem history_playRule (played : playRule grammar round name number analysis = .done next)
    (different : other ≠ name) : next.history other = analysis.history other := by
  unfold playRule at played
  split at played
  · cases played
  · dsimp only at played
    split at played
    · cases played
    · split at played
      · cases played
      · rw [← Outcome.ofFault?_done played]
        change (recordRelations name round _ (withRule number _ analysis)).history other = _
        rw [recordRelations, history_withHistory, if_neg different, history_withRule]

private theorem history_judge {previous : NonterminalRound}
    (judged : judge round name previous analysis = .done next) (different : other ≠ name) :
    next.history other = analysis.history other := by
  unfold judge at judged
  dsimp only at judged
  split at judged
  · cases judged
  · split at judged
    · rw [← Outcome.done.inj judged, history_withHistory, if_neg different]
    · split at judged
      · cases judged
      · rw [← Outcome.done.inj judged]
        rfl

private theorem history_playNonterminal {entry : String × List Nat}
    (played : playNonterminal grammar round entry analysis = .done next) (different : other ≠ entry.1) :
    next.history other = analysis.history other := by
  unfold playNonterminal at played
  dsimp only at played
  split at played
  · cases played
  · obtain ⟨middle, rules, judged⟩ := Outcome.andThen_done played
    rw [history_judge judged different]
    have kept := Outcome.through_keeps (P := fun state => state.history other = analysis.history other)
      (fun number _ state next stepped same => (history_playRule stepped different).trans same) rules
    apply kept
    rw [history_withHistory, if_neg different]

theorem history_of_not_mem_keys {rounds : Nat}
    (went : Outcome.through (playRound grammar) (List.range rounds) {} = .done analysis)
    (absent : other ∉ grammar.nonterminals.keys) : analysis.history other = [] := by
  refine Outcome.through_keeps (P := fun state => state.history other = [])
    (fun round _ state next played kept => ?_) went rfl
  refine Outcome.through_keeps (P := fun state => state.history other = [])
    (fun entry member state next stepped kept => ?_) played kept
  rw [history_playNonterminal stepped, kept]
  rintro rfl
  exact absent (OrderedMap.mem_keys_of_mem member)

end Analysis

namespace Study
open Analysis
variable {reading : Reading} {text : List Char} {grammar : Grammar}

/-- A run on a grammar that was just read plays whole rounds. Whatever nonterminal a round looks up,
and whether or not its snapshot of the round is open, the look-up finds the snapshot of the round
before, which is the last one that was there when the round began, and in round 0 an empty one. The
snapshots that are there when a round begins are the same at every later moment. -/
theorem previousRound_looksUp (read : ofCharacters reading text = .ok { grammar := grammar }) :
    (∀ limit, ∃ rounds ≤ limit, Outcome.through (playRound grammar) (List.range rounds) {} =
      .done (run limit grammar {}).state) ∧
    ∀ round before, Outcome.through (playRound grammar) (List.range round) {} = .done before →
      (∀ name analysis, LooksUp grammar round before name analysis →
        previousRound name (analysis.history name) round =
          .ok ((before.history name).getLast?.getD {}) ∧
        (before.history name).length = round ∧
        ∃ opened : List NonterminalRound, opened.length ≤ 1 ∧
          analysis.history name = before.history name ++ opened) ∧
      ∀ later start analysis, round ≤ later →
        Outcome.through (playRound grammar) (List.range later) {} = .done start →
        During grammar later start analysis →
          (∀ name, grammar.Defines name → before.history name <+: analysis.history name) ∧
          ∀ number < grammar.rules.length,
            (before.rule number).history <+: (analysis.rule number).history := by
  have ready := ready_of_read read
  refine ⟨run_through ready, fun round before rounds => ?_⟩
  have begun := rounds_shows ready rounds
  refine ⟨fun name analysis looks => ?_, fun later start analysis beyond reached during =>
    prefix_of_later ready begun beyond (rounds_shows ready reached) during⟩
  have length := length_history ready begun (looks.defines ready)
  obtain ⟨opened, atMostOne, history⟩ :=
    (looks.during.grown ready begun).nonterminals name (looks.defines ready)
  exact ⟨by rw [history, previousRound_append length atMostOne], length, opened, atMostOne, history⟩

/-- The only nonterminal is its own child. -/
def ownChild : List Char := "S -> S : b[0] = a[0]".toList

theorem previousRound_ownChild : ∃ grammar before analysis,
    ofCharacters { roundLimit := 0, analyze := false } ownChild = .ok { grammar := grammar } ∧
      LooksUp grammar 1 before "S" analysis ∧ (analysis.history "S").length = 2 ∧
      ∃ previous, previousRound "S" (analysis.history "S") 1 = .ok previous ∧
        previous.relations.keys = [⟨⟨0, "a"⟩, ⟨0, "b"⟩⟩] := by
  have moment : ∃ grammar before rule child,
      ofCharacters { roundLimit := 0, analyze := false } ownChild = .ok { grammar := grammar } ∧
      Outcome.through (playRound grammar) (List.range 1) {} = .done before ∧
      grammar.nonterminals.entries = [("S", [0])] ∧ grammar.rules[0]? = some rule ∧
      rule.symbols.drop 1 = [child] ∧ child.name = "S" ∧ isChild grammar child = true ∧
      ((before.history "S").getLast?.getD {}).relations.keys = [⟨⟨0, "a"⟩, ⟨0, "b"⟩⟩] :=
    ⟨_, _, _, _, by cbv, by cbv, by cbv, by cbv, by cbv, by cbv, by cbv, by cbv⟩
  obtain ⟨grammar, before, rule, child, read, rounds, entries, found, right, named, taken, keys⟩ :=
    moment
  have split : grammar.nonterminals.entries = [] ++ ("S", [0]) :: [] := entries
  have numbers : ("S", [0]).2 = [] ++ 0 :: [] := rfl
  have looks : LooksUp grammar 1 before child.name
      (Analysis.opening "S" { before with stability := before.stability.addRound }) :=
    .ofChild split rfl numbers rfl found (by simp [right]) taken
  rw [named] at looks
  obtain ⟨lookedUp, length, _⟩ := ((previousRound_looksUp read).2 1 before rounds).1 _ _ looks
  have opened : ((Analysis.opening "S" { before with
      stability := before.stability.addRound }).history "S").length = 2 := by
    rw [Analysis.opening, history_withHistory, if_pos rfl, List.length_append]
    exact congrArg (· + 1) length
  exact ⟨grammar, before, _, read, looks, opened, _, lookedUp, keys⟩

end Study
end AttributeGrammar
