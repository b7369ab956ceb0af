import AttributeGrammar.Proofs.Analysis.Rounds
import Mathlib.Logic.Function.Basic
import Mathlib.Data.List.Range

/-! What a run of the analysis records.
Whatever order the nonterminals are played in, each sees what the round before recorded for its
children, so the histories are the snapshots of the rounds of the family, one after the other. A run
meets no fault: it ends with the first stable round, or never.
-/
namespace AttributeGrammar

namespace Relations

private theorem ofList_append (first later : List Dependency) :
    ofList (first ++ later) = (ofList first).insertAll later := by
  simp [ofList, OrderedMap.insertAll]

end Relations

namespace RuleRound

theorem cycleFound_record {findings : Findings} {snapshot : RuleRound} :
    (snapshot.record findings).cycleFound = false ↔
      snapshot.cycleFound = false ∧ findings.cycleStarts = [] := by
  simp only [cycleFound, record, Bool.not_eq_false', List.isEmpty_iff,
    List.eq_nil_iff_forall_not_mem, Sequence.mem_addMissing, not_or, forall_and]

end RuleRound

namespace Stability

theorem markUnstable_of_lt {stability : Stability} {round : Nat}
    (inside : round < stability.marks.length) :
    stability.markUnstable round = .ok ⟨stability.marks.set round false⟩ := by
  rw [markUnstable, Sequence.replace?_ofNat inside]

private theorem markUnstable_last {stability : Stability} {earlier : List Bool} {mark : Bool}
    (marks : stability.marks = earlier ++ [mark]) :
    stability.markUnstable earlier.length = .ok ⟨earlier ++ [false]⟩ := by
  rw [markUnstable_of_lt (by simp [marks]), marks, List.set_append_right _ _ (Nat.le_refl _)]
  simp

end Stability

namespace Grammar

def snapshot (grammar : Grammar) (round : Nat) (name : String) : NonterminalRound :=
  { stable := decide (round ≠ 0) &&
      (grammar.family (round + 1) name).sameKeys (grammar.family round name)
    relations := grammar.family (round + 1) name }

def ruleSnapshot (grammar : Grammar) (round number : Nat) : RuleRound :=
  grammar.rules[number]?.elim {} fun rule =>
    let graph := grammar.graph (grammar.family round) rule
    RuleRound.record graph.findings { redecorated := Relations.ofList graph.redecorated }

def stableRound (grammar : Grammar) (round : Nat) : Bool :=
  grammar.nonterminals.keys.all fun name => (grammar.snapshot round name).stable

/-- What is kept of a rule that was played in the first `rounds` rounds. -/
def progress (grammar : Grammar) (number : Nat) : (rounds : Nat) → RuleProgress
  | 0 => {}
  | round + 1 => ⟨(List.range (round + 1)).map (grammar.ruleSnapshot · number),
      grammar.rules[number]?.elim [] (grammar.redecorated (grammar.family round))⟩

theorem history_progress (grammar : Grammar) (number rounds : Nat) :
    (grammar.progress number rounds).history =
      (List.range rounds).map (grammar.ruleSnapshot · number) := by
  cases rounds <;> rfl

/-- The state of an analysis in which every nonterminal has its history and every rule was played in
so many rounds; the grammar counts as acyclic while no snapshot of a rule shows a cycle. -/
structure Shows (grammar : Grammar) (histories : String → List NonterminalRound)
    (rounds : Nat → Nat) (marks : List Bool) (analysis : Analysis) : Prop where
  nonterminals : ∀ name ∈ grammar.nonterminals.keys, analysis.history name = histories name
  rules : ∀ number < grammar.rules.length,
    analysis.rule number = grammar.progress number (rounds number)
  marks : analysis.stability.marks = marks
  acyclic : analysis.acyclic = true ↔ ∀ number < grammar.rules.length, ∀ round < rounds number,
    (grammar.ruleSnapshot round number).cycleFound = false

def snapshots (grammar : Grammar) (rounds : Nat) (name : String) : List NonterminalRound :=
  (List.range rounds).map (grammar.snapshot · name)

/-- The state after the first `rounds` rounds. -/
def ShowsRounds (grammar : Grammar) (rounds : Nat) (analysis : Analysis) : Prop :=
  grammar.Shows (grammar.snapshots rounds) (fun _ => rounds)
    ((List.range rounds).map grammar.stableRound) analysis

theorem showsRounds_start (grammar : Grammar) : grammar.ShowsRounds 0 {} := by
  constructor <;> simp [snapshots, Analysis.history, Analysis.rule, progress]

@[simp] theorem snapshots_succ (grammar : Grammar) (rounds : Nat) (name : String) :
    grammar.snapshots (rounds + 1) name =
      grammar.snapshots rounds name ++ [grammar.snapshot rounds name] := by
  simp [snapshots, List.range_succ]

@[simp] theorem length_snapshots (grammar : Grammar) (rounds : Nat) (name : String) :
    (grammar.snapshots rounds name).length = rounds := by
  simp [snapshots]

variable {grammar : Grammar} {rule : Rule} {round number : Nat}

theorem redecorated_ruleSnapshot (ready : grammar.Ready)
    (found : grammar.rules[number]? = some rule) :
    (grammar.ruleSnapshot round number).redecorated.entries =
      grammar.redecorated (grammar.family round) rule := by
  rw [ruleSnapshot, found, Option.elim_some]
  exact Relations.entries_ofList
    (nodup_redecorated (ready.within_family round) (grammar.nodup_keys_family round))

/-- The graph that a round searches is told by what the snapshot of the rule keeps. -/
theorem graph_ruleSnapshot (ready : grammar.Ready) (found : grammar.rules[number]? = some rule) :
    RuleGraph.mk rule (grammar.ruleSnapshot round number).redecorated.entries =
      grammar.graph (grammar.family round) rule := by
  rw [redecorated_ruleSnapshot ready found, graph]

theorem projections_graph (found : grammar.rules[number]? = some rule) (family : Family) :
    (grammar.graph family rule).findings.projections = grammar.projections family number := by
  rw [projections, found, Option.elim_some]

theorem mem_projections_ruleSnapshot {edge : Edge} :
    edge ∈ (grammar.ruleSnapshot round number).projections.keys ↔
      edge ∈ (grammar.projections (grammar.family round) number).map Prod.fst := by
  rw [ruleSnapshot, projections]
  cases grammar.rules[number]? with
  | none => simp
  | some rule =>
    change edge ∈ (OrderedMap.insertAll ∅ _).keys ↔ _
    simp [OrderedMap.mem_keys_insertAll]

end Grammar

namespace Analysis
variable {grammar : Grammar} {analysis : Analysis}

@[simp] theorem history_withHistory (name other : String) (history : List NonterminalRound) :
    (analysis.withHistory name history).history other =
      if other = name then history else analysis.history other := by
  simp only [withHistory, Analysis.history, OrderedMap.get?_insert]
  split <;> rfl

@[simp] theorem rule_withHistory (name : String) (history : List NonterminalRound) (number : Nat) :
    (analysis.withHistory name history).rule number = analysis.rule number := rfl

@[simp] theorem history_withRule (number : Nat) (progress : RuleProgress) (name : String) :
    (analysis.withRule number progress).history name = analysis.history name := rfl

@[simp] theorem rule_withRule (number other : Nat) (progress : RuleProgress) :
    (analysis.withRule number progress).rule other =
      if other = number then progress else analysis.rule other := by
  simp only [withRule, Analysis.rule, OrderedMap.get?_insert]
  split <;> rfl

/-- Whether or not the snapshot of the round was opened, the one before it is found. -/
theorem previousRound_append {round : Nat} {name : String} {history opened : List NonterminalRound}
    (length : history.length = round) (atMostOne : opened.length ≤ 1) :
    previousRound name (history ++ opened) round = .ok (history.getLast?.getD {}) := by
  cases round with
  | zero =>
    obtain rfl := List.length_eq_zero_iff.mp length
    rfl
  | succ round =>
    have known : (((history ++ opened).length : Nat) : Int) = ((round + 1 : Nat) : Int) ∨
        (((history ++ opened).length : Nat) : Int) = ((round + 1 : Nat) : Int) + 1 := by
      rw [List.length_append, length]
      omega
    have place : previousPlace name (history ++ opened).length ((round + 1 : Nat) : Int) =
        .ok (some round) := by
      rw [previousPlace, if_neg (by omega), if_neg (by omega), if_pos known]
      simp
    have inside : round < history.length := by omega
    have last : history.getLast? = some history[round] := by
      rw [List.getLast?_eq_getElem?, length, Nat.add_sub_cancel, List.getElem?_eq_getElem inside]
    rw [previousRound, place, last]
    simp [bind, Except.bind, pure, Except.pure, List.getElem?_append_left inside, inside]

private theorem previousRound_snapshots (grammar : Grammar) (round : Nat) (name : String)
    {opened : List NonterminalRound} (atMostOne : opened.length ≤ 1) :
    ∃ previous, previousRound name (grammar.snapshots round name ++ opened) round = .ok previous ∧
      previous.relations = grammar.family round name := by
  refine ⟨_, previousRound_append (grammar.length_snapshots round name) atMostOne, ?_⟩
  cases round with
  | zero => rfl
  | succ round => simp [Grammar.snapshot]

theorem redecorate_spec {family : Family} {round : Nat} {children : List (Symbol × Nat)}
    (histories : ∀ child ∈ children, isChild grammar child.1 = true → ∃ previous,
      previousRound child.1.name (analysis.history child.1.name) round = .ok previous ∧
        previous.relations = family child.1.name)
    (named : ∀ child ∈ children, ∀ d ∈ (family child.1.name).entries,
      d.1.source.name ∈ child.1.attributes.keys) :
    redecorate grammar round analysis children = (children.flatMap (fun child =>
      if isChild grammar child.1 then
        (redecorateChild child.1 child.2 (family child.1.name).entries).1 else []), none) := by
  induction children with
  | nil => rfl
  | cons child rest ih =>
    obtain ⟨symbol, place⟩ := child
    have later := ih (fun other member => histories other (List.mem_cons_of_mem _ member))
      (fun other member => named other (List.mem_cons_of_mem _ member))
    rw [redecorate, List.flatMap_cons]
    by_cases taken : isChild grammar symbol = true
    · obtain ⟨previous, found, relations⟩ := histories (symbol, place) List.mem_cons_self taken
      have whole := (Grammar.redecorateChild_spec place
        (named (symbol, place) List.mem_cons_self)).1
      have put : redecorateChild symbol place previous.relations.entries =
          ((redecorateChild symbol place (family symbol.name).entries).1, none) := by
        rw [relations, ← whole]
      simp only [if_pos taken, found, put, later]
    · simp only [if_neg taken, later, List.nil_append]

/-- What is put on the children is known once the rounds before are, whether or not a child has a
snapshot of this round already. -/
theorem redecorate_opened (ready : grammar.Ready) {round : Nat}
    (opened : ∀ name ∈ grammar.nonterminals.keys, ∃ last : List NonterminalRound,
      last.length ≤ 1 ∧ analysis.history name = grammar.snapshots round name ++ last)
    {rule : Rule} (kept : rule ∈ grammar.rules) :
    redecorate grammar round analysis (rule.symbols.zipIdx.drop 1) =
      (grammar.redecorated (grammar.family round) rule, none) := by
  apply redecorate_spec
  · intro child _ taken
    obtain ⟨last, atMostOne, history⟩ :=
      opened child.1.name (ready.mem_keys_iff.mpr (ready.isChild_iff.mp taken))
    rw [history]
    exact previousRound_snapshots grammar round child.1.name atMostOne
  · intro child member
    exact ready.names_child (ready.within_family round) kept (Grammar.mem_children.mp member).2

/-- What is found in a round goes to the snapshot that is open, and to no other. -/
theorem modify_snapshots (grammar : Grammar) (round : Nat) (name : String)
    (relations : Relations) (found : List Dependency) :
    (grammar.snapshots round name ++ [(⟨false, relations⟩ : NonterminalRound)]).modify round
      (fun snapshot => { snapshot with relations := snapshot.relations.insertAll found }) =
        grammar.snapshots round name ++ [⟨false, relations.insertAll found⟩] := by
  have last := Sequence.modify_last (grammar.snapshots round name) ⟨false, relations⟩
    fun snapshot => ⟨snapshot.stable, snapshot.relations.insertAll found⟩
  rwa [Grammar.length_snapshots] at last

/-- Playing a rule, once the snapshot of the round is open and it is known what the children get. -/
theorem playRule_spec {round number : Nat} {name : String} {rule : Rule} {snapshot written : RuleRound}
    (found : grammar.rules[number]? = some rule)
    (opened : ((analysis.rule number).history ++ [({} : RuleRound)])[round]? = some snapshot)
    (sound : (grammar.graph (grammar.family round) rule).Sound)
    (put : redecorate grammar round analysis (rule.symbols.zipIdx.drop 1) =
      (grammar.redecorated (grammar.family round) rule, none))
    (recorded : RuleRound.record (grammar.graph (grammar.family round) rule).findings
      { snapshot with
        redecorated := snapshot.redecorated.insertAll
          (grammar.redecorated (grammar.family round) rule) } = written) :
    playRule grammar round name number analysis = .done
      { (analysis.withRule number
          ⟨((analysis.rule number).history ++ [({} : RuleRound)]).set round written,
            grammar.redecorated (grammar.family round) rule⟩).recordRelations name round
            (grammar.projections (grammar.family round) number) with
        acyclic := analysis.acyclic &&
          (grammar.graph (grammar.family round) rule).findings.cycleStarts.isEmpty } := by
  have graph : RuleGraph.mk rule (grammar.redecorated (grammar.family round) rule) =
      grammar.graph (grammar.family round) rule := rfl
  simp only [playRule, found, opened, put, graph, RuleGraph.fault_findings sound,
    Outcome.ofFault?, recorded, Grammar.projections_graph found]

private theorem playRule_done {round number : Nat} {name : String} {rule : Rule}
    (found : grammar.rules[number]? = some rule)
    (history : (analysis.rule number).history =
      (List.range round).map (grammar.ruleSnapshot · number))
    (sound : (grammar.graph (grammar.family round) rule).Sound)
    (put : redecorate grammar round analysis (rule.symbols.zipIdx.drop 1) =
      (grammar.redecorated (grammar.family round) rule, none)) :
    playRule grammar round name number analysis = .done
      { (analysis.withRule number (grammar.progress number (round + 1))).recordRelations name round
          (grammar.projections (grammar.family round) number) with
        acyclic := analysis.acyclic && !(grammar.ruleSnapshot round number).cycleFound } := by
  have opened : ((analysis.rule number).history ++ [({} : RuleRound)])[round]? = some {} := by
    simp [history]
  have written : ((analysis.rule number).history ++ [({} : RuleRound)]).set round
      (grammar.ruleSnapshot round number) =
        (List.range (round + 1)).map (grammar.ruleSnapshot · number) := by
    rw [List.range_succ, List.map_append, ← history]
    have length : (analysis.rule number).history.length = round := by simp [history]
    rw [List.set_append_right _ _ (by omega), length]
    simp
  have recorded : RuleRound.record (grammar.graph (grammar.family round) rule).findings
      { redecorated := Relations.ofList (grammar.redecorated (grammar.family round) rule) } =
        grammar.ruleSnapshot round number := by
    rw [Grammar.ruleSnapshot, found]
    rfl
  have cycle : (grammar.graph (grammar.family round) rule).findings.cycleStarts.isEmpty =
      !(grammar.ruleSnapshot round number).cycleFound := by
    rw [Bool.eq_iff_iff, Bool.not_eq_true', ← recorded, RuleRound.cycleFound_record]
    simp [RuleRound.cycleFound]
  have progressed : grammar.progress number (round + 1) =
      ⟨(List.range (round + 1)).map (grammar.ruleSnapshot · number),
        grammar.redecorated (grammar.family round) rule⟩ := by
    rw [Grammar.progress, found, Option.elim_some]
  rw [playRule_spec found opened sound put recorded, written, cycle, progressed]

/-- With one more round played of one rule, one more snapshot is to be looked at. -/
theorem forall_update_iff {limit number : Nat} {rounds : Nat → Nat} {P : Nat → Nat → Prop}
    (inside : number < limit) :
    (∀ other < limit, ∀ round < Function.update rounds number (rounds number + 1) other,
        P round other) ↔
      (∀ other < limit, ∀ round < rounds other, P round other) ∧ P (rounds number) number := by
  constructor
  · intro all
    refine ⟨fun other below round less => ?_, ?_⟩
    · apply all other below round
      by_cases same : other = number
      · subst same
        rw [Function.update_self]
        omega
      · rwa [Function.update_of_ne same]
    · apply all number inside
      rw [Function.update_self]
      omega
  · rintro ⟨before, now⟩ other below round less
    by_cases same : other = number
    · subst same
      rw [Function.update_self] at less
      rcases Nat.lt_succ_iff_lt_or_eq.mp less with past | rfl
      · exact before other below round past
      · exact now
    · rw [Function.update_of_ne same] at less
      exact before other below round less

/-- Playing a rule that was played in all rounds before adds its snapshot, and its projections to
the relations of its left side. -/
theorem playRule_shows (ready : grammar.Ready) {round number : Nat} {name : String}
    (listed : number ∈ grammar.numbersOf name) {histories : String → List NonterminalRound}
    {rounds : Nat → Nat} {marks : List Bool} {relations : Relations}
    (shows : grammar.Shows histories rounds marks analysis) (first : rounds number = round)
    (current : histories name = grammar.snapshots round name ++ [⟨false, relations⟩])
    (opened : ∀ other ∈ grammar.nonterminals.keys, ∃ last : List NonterminalRound,
      last.length ≤ 1 ∧ histories other = grammar.snapshots round other ++ last) :
    ∃ next, playRule grammar round name number analysis = .done next ∧
      grammar.Shows (Function.update histories name (grammar.snapshots round name ++
          [⟨false, relations.insertAll (grammar.projections (grammar.family round) number)⟩]))
        (Function.update rounds number (round + 1)) marks next := by
  obtain ⟨rule, found, named⟩ := Grammar.mem_numbersOf.mp listed
  have kept := List.mem_of_getElem? found
  have inside := (List.getElem?_eq_some_iff.mp found).1
  have known : name ∈ grammar.nonterminals.keys := ready.mem_keys_iff.mpr ⟨rule, kept, named⟩
  have put := redecorate_opened ready (fun other defined => by
    rw [shows.nonterminals other defined]
    exact opened other defined) kept
  have history : (analysis.rule number).history =
      (List.range round).map (grammar.ruleSnapshot · number) := by
    rw [shows.rules number inside, first, Grammar.history_progress]
  have sound := ready.sound_graph (ready.within_family round) kept
  refine ⟨_, playRule_done found history sound put, ?_, ?_, shows.marks, ?_⟩
  · intro other member
    change (withHistory name ((analysis.history name).modify round _) _).history other = _
    rw [history_withHistory, shows.nonterminals name known, current, modify_snapshots]
    by_cases same : other = name
    · subst same
      simp
    · simpa [same] using shows.nonterminals other member
  · intro other below
    change (analysis.withRule number _).rule other = _
    rw [rule_withRule]
    by_cases same : other = number
    · subst same
      simp
    · simpa [same] using shows.rules other below
  · rw [← first, forall_update_iff inside, ← shows.acyclic, first]
    simp

def relationsSoFar (grammar : Grammar) (round : Nat) (played : List Nat) : Relations :=
  Relations.ofList (played.flatMap (grammar.projections (grammar.family round)))

/-- The state in which the nonterminals of `passed` are done with the round. -/
def Passed (grammar : Grammar) (round : Nat) (passed : List (String × List Nat))
    (analysis : Analysis) : Prop :=
  grammar.Shows
    (fun name => grammar.snapshots (if name ∈ passed.map Prod.fst then round + 1 else round) name)
    (fun number => if number ∈ passed.flatMap Prod.snd then round + 1 else round)
    ((List.range round).map grammar.stableRound ++
      [passed.all fun entry => (grammar.snapshot round entry.1).stable]) analysis

/-- The state in which, besides, some rules of the next nonterminal are done. -/
def Played (grammar : Grammar) (round : Nat) (passed : List (String × List Nat)) (name : String)
    (played : List Nat) (analysis : Analysis) : Prop :=
  grammar.Shows
    (Function.update (fun other => grammar.snapshots
        (if other ∈ passed.map Prod.fst then round + 1 else round) other) name
      (grammar.snapshots round name ++ [⟨false, relationsSoFar grammar round played⟩]))
    (fun number => if number ∈ passed.flatMap Prod.snd ∨ number ∈ played then round + 1 else round)
    ((List.range round).map grammar.stableRound ++
      [passed.all fun entry => (grammar.snapshot round entry.1).stable]) analysis

theorem numbers_of_mem (ready : grammar.Ready) {entry : String × List Nat}
    (member : entry ∈ grammar.nonterminals.entries) : entry.2 = grammar.numbersOf entry.1 := by
  rw [← ready.numbers, OrderedMap.get?_of_mem ready.distinct member, Option.getD_some]

/-- No nonterminal is registered twice. -/
theorem not_passed (ready : grammar.Ready) {passed rest : List (String × List Nat)}
    {entry : String × List Nat} (split : grammar.nonterminals.entries = passed ++ entry :: rest) :
    entry.1 ∉ passed.map Prod.fst := by
  have distinct : (passed.map Prod.fst ++ entry.1 :: rest.map Prod.fst).Nodup := by
    have keys := ready.distinct
    simpa [OrderedMap.keys, split] using keys
  intro earlier
  exact (List.nodup_append.mp distinct).2.2 entry.1 earlier entry.1 List.mem_cons_self rfl

/-- No rule belongs to two nonterminals. -/
theorem not_played (ready : grammar.Ready) {passed rest : List (String × List Nat)}
    {entry : String × List Nat} (split : grammar.nonterminals.entries = passed ++ entry :: rest)
    {number : Nat} (listed : number ∈ entry.2) : number ∉ passed.flatMap Prod.snd := by
  intro played
  obtain ⟨other, earlier, there⟩ := List.mem_flatMap.mp played
  have memberOther : other ∈ grammar.nonterminals.entries := by simp [split, earlier]
  have memberEntry : entry ∈ grammar.nonterminals.entries := by simp [split]
  rw [numbers_of_mem ready memberEntry] at listed
  rw [numbers_of_mem ready memberOther] at there
  obtain ⟨rule, found, named⟩ := Grammar.mem_numbersOf.mp listed
  obtain ⟨same, present, name⟩ := Grammar.mem_numbersOf.mp there
  obtain rfl : rule = same := by simpa [found] using present
  have equal : other.1 = entry.1 := by simpa [named] using name.symm
  exact not_passed ready split (equal ▸ List.mem_map_of_mem earlier)

/-- No rule is listed twice. -/
theorem not_mem_before (ready : grammar.Ready) {entry : String × List Nat}
    (member : entry ∈ grammar.nonterminals.entries) {before after : List Nat} {number : Nat}
    (order : entry.2 = before ++ number :: after) : number ∉ before := by
  have distinct := grammar.nodup_numbersOf entry.1
  rw [← numbers_of_mem ready member, order] at distinct
  intro earlier
  exact (List.nodup_append.mp distinct).2.2 number earlier number List.mem_cons_self rfl

def opening (name : String) (analysis : Analysis) : Analysis :=
  analysis.withHistory name (analysis.history name ++ [({} : NonterminalRound)])

private theorem opening_played (ready : grammar.Ready) {round : Nat}
    {passed rest : List (String × List Nat)}
    {entry : String × List Nat} (split : grammar.nonterminals.entries = passed ++ entry :: rest)
    (state : Passed grammar round passed analysis) :
    Played grammar round passed entry.1 [] (analysis.opening entry.1) := by
  have known : entry.1 ∈ grammar.nonterminals.keys :=
    OrderedMap.mem_keys_of_mem (by simp [split])
  refine ⟨fun name present => ?_, fun number below => ?_, state.marks, ?_⟩
  · rw [opening, history_withHistory]
    by_cases same : name = entry.1
    · subst same
      rw [if_pos rfl, state.nonterminals _ known, if_neg (not_passed ready split),
        Function.update_self]
      rfl
    · rw [if_neg same, state.nonterminals name present, Function.update_of_ne same]
  · rw [opening, rule_withHistory, state.rules number below]
    simp only [List.not_mem_nil, or_false]
  · simpa only [List.not_mem_nil, or_false] using! state.acyclic

private theorem playRule_played (ready : grammar.Ready) {round : Nat}
    {passed rest : List (String × List Nat)} {entry : String × List Nat}
    (split : grammar.nonterminals.entries = passed ++ entry :: rest)
    {before after : List Nat} {number : Nat} (order : entry.2 = before ++ number :: after)
    (state : Played grammar round passed entry.1 before analysis) :
    ∃ next, playRule grammar round entry.1 number analysis = .done next ∧
      Played grammar round passed entry.1 (before ++ [number]) next := by
  have member : entry ∈ grammar.nonterminals.entries := by simp [split]
  have listed : number ∈ grammar.numbersOf entry.1 := by simp [← numbers_of_mem ready member, order]
  have new := not_mem_before ready member order
  have outside : number ∉ passed.flatMap Prod.snd := not_played ready split (by simp [order])
  obtain ⟨next, stepped, after⟩ := playRule_shows ready listed state (by simp [outside, new])
    (Function.update_self ..) (fun other present => by
      by_cases same : other = entry.1
      · subst same
        exact ⟨_, by simp, Function.update_self ..⟩
      · rw [Function.update_of_ne same]
        split
        · exact ⟨[grammar.snapshot round other], by simp, by simp⟩
        · exact ⟨[], by simp, by simp⟩)
  have relations : relationsSoFar grammar round (before ++ [number]) =
      (relationsSoFar grammar round before).insertAll
        (grammar.projections (grammar.family round) number) := by
    simp [relationsSoFar, Relations.ofList_append]
  have rounds : Function.update (fun other => if other ∈ passed.flatMap Prod.snd ∨ other ∈ before
      then round + 1 else round) number (round + 1) = fun other =>
        if other ∈ passed.flatMap Prod.snd ∨ other ∈ before ++ [number]
          then round + 1 else round := by
    funext other
    by_cases same : other = number
    · simp [same]
    · simp only [Function.update_of_ne same, List.mem_append, List.mem_singleton, same, or_false]
  rw [Function.update_idem, rounds, ← relations] at after
  exact ⟨next, stepped, after⟩

theorem played_rules (ready : grammar.Ready) {round : Nat} {passed rest : List (String × List Nat)}
    {entry : String × List Nat} (split : grammar.nonterminals.entries = passed ++ entry :: rest)
    {played others : List Nat} (numbers : entry.2 = played ++ others)
    (state : Passed grammar round passed analysis) :
    ∃ next, Outcome.through (playRule grammar round entry.1) played (analysis.opening entry.1) =
        .done next ∧
      Played grammar round passed entry.1 played next :=
  Outcome.through_done (Played grammar round passed entry.1) played
    (opening_played ready split state)
    fun before number after order _ shows => by
      have place : entry.2 = before ++ number :: (after ++ others) := by simp [numbers, order]
      exact playRule_played ready split place shows

/-- The judgement closes the snapshot that was opened; an unstable one marks the whole round. -/
theorem judge_done {round : Nat} {name : String} {previous : NonterminalRound}
    {earlier : List Bool} {mark : Bool} (before : previous.relations = grammar.family round name)
    (history : analysis.history name =
      grammar.snapshots round name ++ [⟨false, grammar.family (round + 1) name⟩])
    (marks : analysis.stability.marks = earlier ++ [mark]) (length : earlier.length = round) :
    ∃ next, judge round name previous analysis = .done next ∧
      (∀ other, next.history other =
        if other = name then grammar.snapshots (round + 1) name else analysis.history other) ∧
      (∀ number, next.rule number = analysis.rule number) ∧
      next.stability.marks = earlier ++ [mark && (grammar.snapshot round name).stable] ∧
      next.acyclic = analysis.acyclic := by
  have current : (analysis.history name)[round]? =
      some ⟨false, grammar.family (round + 1) name⟩ := by
    rw [history, List.getElem?_append_right (by simp)]
    simp
  simp only [judge, current, before]
  -- The first round is never stable, even when it finds nothing.
  split
  case isTrue stable =>
    have snapshot : grammar.snapshot round name = ⟨true, grammar.family (round + 1) name⟩ := by
      simp [Grammar.snapshot, stable]
    refine ⟨_, rfl, fun other => ?_, fun _ => rfl, ?_, rfl⟩
    · rw [history_withHistory, history, List.set_append_right _ _ (by simp)]
      simp [snapshot]
    · rw [snapshot, Bool.and_true]
      exact marks
  case isFalse unstable =>
    have snapshot : grammar.snapshot round name = ⟨false, grammar.family (round + 1) name⟩ := by
      have mark : (decide (round ≠ 0) && (grammar.family (round + 1) name).sameKeys
          (grammar.family round name)) = false := by
        rw [Bool.eq_false_iff]
        intro both
        apply unstable
        simpa using both
      rw [Grammar.snapshot, mark]
    rw [← length, Stability.markUnstable_last marks, length]
    refine ⟨_, rfl, fun other => ?_, fun _ => rfl, ?_, rfl⟩
    · by_cases same : other = name
      · subst same
        rw [if_pos rfl, Grammar.snapshots_succ, snapshot]
        exact history
      · rw [if_neg same]
        rfl
    · rw [snapshot, Bool.and_false]

private theorem judge_passed (ready : grammar.Ready) {round : Nat}
    {passed rest : List (String × List Nat)}
    {entry : String × List Nat} (split : grammar.nonterminals.entries = passed ++ entry :: rest)
    {previous : NonterminalRound} (before : previous.relations = grammar.family round entry.1)
    (state : Played grammar round passed entry.1 entry.2 analysis) :
    ∃ next, judge round entry.1 previous analysis = .done next ∧
      Passed grammar round (passed ++ [entry]) next := by
  have member : entry ∈ grammar.nonterminals.entries := by simp [split]
  have known : entry.1 ∈ grammar.nonterminals.keys := OrderedMap.mem_keys_of_mem member
  have history : analysis.history entry.1 = grammar.snapshots round entry.1 ++
      [⟨false, grammar.family (round + 1) entry.1⟩] := by
    rw [state.nonterminals _ known, Function.update_self, numbers_of_mem ready member]
    rfl
  obtain ⟨next, judged, histories, rules, marks, acyclic⟩ :=
    judge_done before history state.marks (by simp)
  have rounds (number : Nat) : number ∈ (passed ++ [entry]).flatMap Prod.snd ↔
      number ∈ passed.flatMap Prod.snd ∨ number ∈ entry.2 := by
    simp
  refine ⟨next, judged, fun name present => ?_, fun number below => ?_, ?_, ?_⟩
  · rw [histories]
    by_cases same : name = entry.1
    · subst same
      simp
    · have still : name ∈ (passed ++ [entry]).map Prod.fst ↔ name ∈ passed.map Prod.fst := by
        simp [same]
      rw [if_neg same, state.nonterminals name present, Function.update_of_ne same]
      simp only [still]
  · simp only [rules, rounds, state.rules number below]
  · rw [marks, List.all_append]
    simp
  · simp only [acyclic, rounds, state.acyclic]

private theorem addRound_passed {round : Nat} (state : grammar.ShowsRounds round analysis) :
    Passed grammar round [] { analysis with stability := analysis.stability.addRound } := by
  refine ⟨fun name present => ?_, fun number below => ?_, ?_, ?_⟩
  · simpa using! state.nonterminals name present
  · simpa using! state.rules number below
  · change (analysis.stability.addRound).marks = _
    simp [Stability.addRound, state.marks]
  · simpa using state.acyclic

private theorem playNonterminal_passed (ready : grammar.Ready) {round : Nat}
    {passed rest : List (String × List Nat)} {entry : String × List Nat}
    (split : grammar.nonterminals.entries = passed ++ entry :: rest)
    (state : Passed grammar round passed analysis) :
    ∃ next, playNonterminal grammar round entry analysis = .done next ∧
      Passed grammar round (passed ++ [entry]) next := by
  have known : entry.1 ∈ grammar.nonterminals.keys :=
    OrderedMap.mem_keys_of_mem (by simp [split])
  have opened : (analysis.opening entry.1).history entry.1 =
      grammar.snapshots round entry.1 ++ [({} : NonterminalRound)] := by
    rw [opening, history_withHistory, if_pos rfl, state.nonterminals _ known,
      if_neg (not_passed ready split)]
  have single : [({} : NonterminalRound)].length ≤ 1 := Nat.le_refl 1
  obtain ⟨previous, found, relations⟩ := previousRound_snapshots grammar round entry.1 single
  obtain ⟨played, went, state⟩ := played_rules ready split (List.append_nil entry.2).symm state
  obtain ⟨next, judged, finished⟩ := judge_passed ready split relations state
  refine ⟨next, ?_, finished⟩
  rw [← opened] at found
  rw [opening] at found went
  simp only [playNonterminal, found, went, Outcome.done_andThen, judged]

theorem played_nonterminals (ready : grammar.Ready) {round : Nat}
    {passed rest : List (String × List Nat)} (split : grammar.nonterminals.entries = passed ++ rest)
    (state : grammar.ShowsRounds round analysis) :
    ∃ next, Outcome.through (playNonterminal grammar round) passed
        { analysis with stability := analysis.stability.addRound } = .done next ∧
      Passed grammar round passed next :=
  Outcome.through_done (Passed grammar round) passed (addRound_passed state)
    fun before entry after order _ shows => by
      have place : grammar.nonterminals.entries = before ++ entry :: (after ++ rest) := by
        simp [split, order]
      exact playNonterminal_passed ready place shows

theorem mem_numbers (ready : grammar.Ready) {number : Nat} (below : number < grammar.rules.length) :
    number ∈ grammar.nonterminals.entries.flatMap Prod.snd := by
  obtain ⟨name, _, named⟩ := ready.registered _ (List.getElem_mem below)
  have listed : number ∈ grammar.numbersOf name :=
    Grammar.mem_numbersOf.mpr ⟨_, List.getElem?_eq_getElem below, named⟩
  rw [← ready.numbers] at listed
  cases found : grammar.nonterminals.get? name with
  | none => simp [found] at listed
  | some numbers =>
    rw [found] at listed
    exact List.mem_flatMap.mpr ⟨(name, numbers), OrderedMap.mem_of_get? found, listed⟩

/-- One more round, and every nonterminal has one more snapshot. -/
theorem playRound_shows (ready : grammar.Ready) {round : Nat}
    (state : grammar.ShowsRounds round analysis) :
    ∃ next, playRound grammar round analysis = .done next ∧ grammar.ShowsRounds (round + 1) next := by
  obtain ⟨next, played, passed⟩ := played_nonterminals ready
    (List.append_nil grammar.nonterminals.entries).symm state
  refine ⟨next, played, fun name present => ?_, fun number below => ?_, ?_, ?_⟩
  · rw [passed.nonterminals name present, if_pos (by exact present)]
  · rw [passed.rules number below, if_pos (mem_numbers ready below)]
  · rw [passed.marks, List.range_succ, List.map_append]
    simp [Grammar.stableRound, OrderedMap.keys, List.all_map, Function.comp_def]
  · rw [passed.acyclic]
    refine forall₂_congr fun number below => ?_
    rw [if_pos (mem_numbers ready below)]

private theorem through_range_succ {rounds : Nat} {before next : Analysis}
    (went : Outcome.through (playRound grammar) (List.range rounds) analysis = .done before)
    (played : playRound grammar rounds before = .done next) :
    Outcome.through (playRound grammar) (List.range (rounds + 1)) analysis = .done next := by
  rw [List.range_succ, Outcome.through_append, went, Outcome.done_andThen, Outcome.through, played,
    Outcome.done_andThen, Outcome.through]

theorem exists_rounds (ready : grammar.Ready) (rounds : Nat) : ∃ analysis,
    Outcome.through (playRound grammar) (List.range rounds) {} = .done analysis ∧
      grammar.ShowsRounds rounds analysis := by
  induction rounds with
  | zero => exact ⟨{}, rfl, grammar.showsRounds_start⟩
  | succ rounds ih =>
    obtain ⟨before, went, shows⟩ := ih
    obtain ⟨next, played, further⟩ := playRound_shows ready shows
    exact ⟨next, through_range_succ went played, further⟩

private theorem isUnstable_shows {round : Nat} (state : grammar.ShowsRounds (round + 1) analysis) :
    analysis.stability.isUnstable round = .ok !(grammar.stableRound round) := by
  have marks : analysis.stability.marks[round]? = some (grammar.stableRound round) := by
    rw [state.marks]
    simp
  rw [Stability.isUnstable, Sequence.item, Sequence.item?_ofNat, marks]
  rfl

private theorem runFrom_cases (ready : grammar.Ready) (limit : Nat) {round : Nat}
    (state : grammar.ShowsRounds round analysis) :
    (∃ last final, round ≤ last ∧ last < round + limit ∧ grammar.stableRound last = true ∧
      (∀ other, round ≤ other → other < last → grammar.stableRound other = false) ∧
      runFrom grammar limit round analysis = .done final ∧ grammar.ShowsRounds (last + 1) final) ∨
    ∃ final, (∀ other, round ≤ other → other < round + limit → grammar.stableRound other = false) ∧
      runFrom grammar limit round analysis = .stopped .roundsExhausted final ∧
        grammar.ShowsRounds (round + limit) final := by
  induction limit generalizing round analysis with
  | zero => exact Or.inr ⟨analysis, fun _ _ _ => by omega, rfl, state⟩
  | succ limit ih =>
    obtain ⟨next, played, shows⟩ := playRound_shows ready state
    simp only [runFrom, played, Outcome.done_andThen, isUnstable_shows shows]
    cases stable : grammar.stableRound round with
    | true => exact Or.inl ⟨round, next, by omega, by omega, stable, fun _ _ _ => by omega, rfl, shows⟩
    | false =>
      have here {other : Nat} (least : round ≤ other) (later : round + 1 ≤ other →
          grammar.stableRound other = false) : grammar.stableRound other = false := by
        rcases Nat.eq_or_lt_of_le least with rfl | beyond
        · exact stable
        · exact later beyond
      rcases ih shows with ⟨last, final, least, less, ended, unstable, went, recorded⟩ |
        ⟨final, unstable, went, recorded⟩
      · exact Or.inl ⟨last, final, by omega, by omega, ended, fun other first before =>
          here first fun beyond => unstable other beyond before, went, recorded⟩
      · refine Or.inr ⟨final, fun other first before =>
          here first fun beyond => unstable other beyond (by omega), went, ?_⟩
        rwa [show round + (limit + 1) = round + 1 + limit by omega]

/-- A run of a fresh analysis ends with the first stable round, if that comes within the limit. -/
theorem run_cases (ready : grammar.Ready) (limit : Nat) :
    (∃ last final, last < limit ∧ grammar.stableRound last = true ∧
      (∀ other < last, grammar.stableRound other = false) ∧
      run limit grammar {} = .done final ∧ grammar.ShowsRounds (last + 1) final) ∨
    ∃ final, (∀ other < limit, grammar.stableRound other = false) ∧
      run limit grammar {} = .stopped .roundsExhausted final ∧ grammar.ShowsRounds limit final := by
  rcases runFrom_cases ready limit grammar.showsRounds_start with
    ⟨last, final, _, less, stable, unstable, went, shows⟩ | ⟨final, unstable, went, shows⟩
  · exact Or.inl ⟨last, final, by omega, stable, fun other before =>
      unstable other (Nat.zero_le _) before, went, shows⟩
  · rw [Nat.zero_add] at shows
    exact Or.inr ⟨final, fun other before => unstable other (Nat.zero_le _) (by omega), went, shows⟩

/-- A run of any length ends after whole rounds, also one that exhausts its limit. -/
theorem run_through (ready : grammar.Ready) (limit : Nat) : ∃ rounds ≤ limit,
    Outcome.through (playRound grammar) (List.range rounds) {} =
      .done (run limit grammar {}).state := by
  suffices general : ∀ (limit round : Nat) (analysis : Analysis),
      Outcome.through (playRound grammar) (List.range round) {} = .done analysis →
      grammar.ShowsRounds round analysis → ∃ rounds ≤ round + limit,
        Outcome.through (playRound grammar) (List.range rounds) {} =
          .done (runFrom grammar limit round analysis).state by
    simpa [run] using general limit 0 {} rfl grammar.showsRounds_start
  intro limit
  induction limit with
  | zero => exact fun round analysis rounds _ => ⟨round, Nat.le_refl _, rounds⟩
  | succ limit ih =>
    intro round analysis rounds state
    obtain ⟨next, played, shows⟩ := playRound_shows ready state
    have further := through_range_succ rounds played
    simp only [runFrom, played, Outcome.done_andThen, isUnstable_shows shows]
    cases grammar.stableRound round with
    | true => exact ⟨round + 1, by omega, further⟩
    | false =>
      obtain ⟨last, least, went⟩ := ih (round + 1) next further shows
      exact ⟨last, by omega, went⟩

end Analysis
end AttributeGrammar
