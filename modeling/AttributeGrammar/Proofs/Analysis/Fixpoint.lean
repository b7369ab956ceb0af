import AttributeGrammar.Proofs.Analysis.Run
import Mathlib.Algebra.BigOperators.Group.Finset.Sigma
import Mathlib.Algebra.Order.BigOperators.Group.Finset
import Mathlib.Data.Finset.Prod
import Mathlib.Data.Finset.Sigma
import Mathlib.Order.FixedPoints

/-! The least relations of a grammar, and what the rounds find of them.
A round never finds more than the projections of the least relations. As long as no round meets a
cycle it finds exactly the projections of the round before, so the relations grow, and within as
many rounds as there are pairs of attributes they are the least ones or a cycle was met.
-/
namespace AttributeGrammar
open Relation (TransGen)

/-- The edges of a rule when its children have the given relations. -/
inductive Rule.Joins (grammar : Grammar) (rule : Rule) (related : NameRelations) :
    Coordinate → Coordinate → Prop
  | declared {d : Dependency} (member : d ∈ rule.declared) :
    Rule.Joins grammar rule related d.1.source d.1.target
  | child {place : Nat} {symbol : Symbol} {source target : String} (right : 1 ≤ place)
      (found : rule.symbols[place]? = some symbol) (defined : grammar.Defines symbol.name)
      (relates : related symbol.name source target) :
    Rule.Joins grammar rule related ⟨place, source⟩ ⟨place, target⟩

theorem Rule.Joins.mono {grammar : Grammar} {rule : Rule} {less more : NameRelations}
    (le : less ≤ more) : rule.Joins grammar less ≤ rule.Joins grammar more := by
  intro source target edge
  cases edge with
  | declared member => exact .declared member
  | child right found defined relates => exact .child right found defined (le _ _ _ relates)

namespace Grammar

/-- The relations between attributes of the left sides that one application of the rules gives. -/
def project (grammar : Grammar) : NameRelations →o NameRelations where
  toFun related := fun name source target => ∃ rule ∈ grammar.rules, rule.leftName? = some name ∧
    TransGen (rule.Joins grammar related) ⟨0, source⟩ ⟨0, target⟩
  monotone' := by
    rintro less more le name source target ⟨rule, kept, named, path⟩
    exact ⟨rule, kept, named, TransGen.mono (Rule.Joins.mono le) _ _ path⟩

/-- The least relations that are closed under the rules. -/
def leastRelations (grammar : Grammar) : NameRelations := grammar.project.lfp

def CyclicWith (grammar : Grammar) (related : NameRelations) : Prop :=
  ∃ rule ∈ grammar.rules, ∃ c, TransGen (rule.Joins grammar related) c c

/-- The grammar is not strongly acyclic. -/
def Cyclic (grammar : Grammar) : Prop := grammar.CyclicWith grammar.leastRelations

/-- How many pairs of different attributes the nonterminals have. -/
def pairCount (grammar : Grammar) : Nat :=
  ∑ name ∈ grammar.nonterminals.keys.toFinset,
    (grammar.attributesOf name).length * ((grammar.attributesOf name).length - 1)

variable {grammar : Grammar} {family : Family} {rule : Rule}

theorem CyclicWith.mono {less more : NameRelations} (le : less ≤ more)
    (cyclic : grammar.CyclicWith less) : grammar.CyclicWith more := by
  obtain ⟨rule, kept, c, cycle⟩ := cyclic
  exact ⟨rule, kept, c, TransGen.mono (Rule.Joins.mono le) _ _ cycle⟩

private theorem leads_graph (ready : grammar.Ready) (within : grammar.Within family)
    (kept : rule ∈ grammar.rules) {source target : Coordinate} :
    (grammar.graph family rule).Leads source target ↔
      rule.Joins grammar family.Related source target := by
  constructor
  · rintro ⟨d, member, rfl, rfl⟩
    rcases List.mem_append.mp member with declared | put
    · exact .declared declared
    · obtain ⟨place, child, right, found, defined, relation, present, rfl, _⟩ :=
        (mem_redecorated ready within kept).mp put
      obtain ⟨source, target, _⟩ := within child.name relation present
      apply Rule.Joins.child right found defined
      obtain ⟨⟨⟨_, first⟩, ⟨_, second⟩⟩, positions⟩ := relation
      obtain rfl : _ = (0 : Int) := source
      obtain rfl : _ = (0 : Int) := target
      exact OrderedMap.mem_keys_of_mem present
  · intro edge
    cases edge with
    | declared member => exact ⟨_, List.mem_append_left _ member, rfl, rfl⟩
    | @child place symbol first second right found defined relates =>
      obtain ⟨positions, present⟩ := OrderedMap.exists_of_mem_keys relates
      by_cases declared : (⟨⟨place, first⟩, ⟨place, second⟩⟩ : Edge) ∈ rule.declared.map Prod.fst
      · obtain ⟨d, member, edge⟩ := List.mem_map.mp declared
        exact ⟨d, List.mem_append_left _ member, by rw [edge], by rw [edge]⟩
      · have put : (Dependency.redecorated (⟨⟨0, first⟩, ⟨0, second⟩⟩, positions) place) ∈
            grammar.redecorated family rule :=
          (mem_redecorated ready within kept).mpr
            ⟨place, symbol, right, found, defined, _, present, rfl, declared⟩
        exact ⟨_, List.mem_append_right _ put, rfl, rfl⟩

theorem path_graph (ready : grammar.Ready) (within : grammar.Within family)
    (kept : rule ∈ grammar.rules) {source target : Coordinate} :
    TransGen (grammar.graph family rule).Leads source target ↔
      TransGen (rule.Joins grammar family.Related) source target :=
  ⟨TransGen.mono (fun _ _ edge => (leads_graph ready within kept).mp edge) _ _,
    TransGen.mono (fun _ _ edge => (leads_graph ready within kept).mpr edge) _ _⟩

private theorem related_following {name source target : String} :
    (grammar.following family).Related name source target ↔
      ∃ rule ∈ grammar.rules, rule.leftName? = some name ∧ (⟨⟨0, source⟩, ⟨0, target⟩⟩ : Edge) ∈
        (grammar.graph family rule).findings.projections.map Prod.fst := by
  have keys : (grammar.following family).Related name source target ↔
      (⟨⟨0, source⟩, ⟨0, target⟩⟩ : Edge) ∈
        ((grammar.numbersOf name).flatMap (grammar.projections family)).map Prod.fst := by
    rw [Family.Related, following, Relations.ofList, OrderedMap.mem_keys_insertAll]
    simp
  rw [keys, List.map_flatMap]
  simp only [List.mem_flatMap]
  constructor
  · rintro ⟨number, listed, member⟩
    obtain ⟨rule, found, named⟩ := mem_numbersOf.mp listed
    simp only [projections, found, Option.elim_some] at member
    exact ⟨rule, List.mem_of_getElem? found, named, member⟩
  · rintro ⟨rule, kept, named, member⟩
    obtain ⟨number, found⟩ := List.mem_iff_getElem?.mp kept
    refine ⟨number, mem_numbersOf.mpr ⟨rule, found, named⟩, ?_⟩
    simpa only [projections, found, Option.elim_some] using member

private theorem related_following_le (ready : grammar.Ready) (within : grammar.Within family) :
    (grammar.following family).Related ≤ grammar.project family.Related := by
  intro name source target related
  obtain ⟨rule, kept, named, member⟩ := related_following.mp related
  obtain ⟨_, _, ⟨rfl, rfl⟩, _, path⟩ :=
    RuleGraph.path_of_projection (ready.sound_graph within kept) member
  exact ⟨rule, kept, named, (path_graph ready within kept).mp path⟩

theorem related_following_eq (ready : grammar.Ready) (within : grammar.Within family)
    (acyclic : ¬ grammar.CyclicWith family.Related) :
    (grammar.following family).Related = grammar.project family.Related := by
  apply le_antisymm (related_following_le ready within)
  rintro name source target ⟨rule, kept, named, path⟩
  rw [← path_graph ready within kept] at path
  refine related_following.mpr ⟨rule, kept, named,
    RuleGraph.projection_of_path (ready.sound_graph within kept) (fun cycle => acyclic ?_) path⟩
  exact ⟨rule, kept, _, (path_graph ready within kept).mp cycle⟩

private theorem related_family_le (ready : grammar.Ready) (round : Nat) :
    (grammar.family round).Related ≤ grammar.leastRelations := by
  induction round with
  | zero =>
    intro name source target related
    simp [Family.Related, Grammar.family] at related
  | succ round ih =>
    calc (grammar.family (round + 1)).Related
        ≤ grammar.project (grammar.family round).Related :=
          related_following_le ready (ready.within_family round)
      _ ≤ grammar.project grammar.leastRelations := grammar.project.monotone ih
      _ = grammar.leastRelations := grammar.project.map_lfp

/-- No rule is cyclic with the relations that the round starts from. -/
def Quiet (grammar : Grammar) (round : Nat) : Prop :=
  ¬ grammar.CyclicWith (grammar.family round).Related

theorem cycleFound_ruleSnapshot (ready : grammar.Ready) {round number : Nat}
    (found : grammar.rules[number]? = some rule) :
    (grammar.ruleSnapshot round number).cycleFound = false ↔
      ¬ (grammar.graph (grammar.family round) rule).Cyclic := by
  have sound := ready.sound_graph (ready.within_family round) (List.mem_of_getElem? found)
  rw [ruleSnapshot, found, Option.elim_some, RuleRound.cycleFound_record,
    RuleGraph.cycleStarts_eq_nil_iff sound]
  exact ⟨And.right, fun acyclic => ⟨rfl, acyclic⟩⟩

theorem quiet_iff (ready : grammar.Ready) {round : Nat} : grammar.Quiet round ↔
    ∀ number < grammar.rules.length, (grammar.ruleSnapshot round number).cycleFound = false := by
  have within := ready.within_family round
  constructor
  · intro quiet number below
    rw [cycleFound_ruleSnapshot ready (List.getElem?_eq_getElem below)]
    rintro ⟨c, cycle⟩
    have kept := List.getElem_mem below
    exact quiet ⟨_, kept, c, (path_graph ready within kept).mp cycle⟩
  · rintro still ⟨rule, kept, c, cycle⟩
    obtain ⟨number, found⟩ := List.mem_iff_getElem?.mp kept
    have below := (List.getElem?_eq_some_iff.mp found).1
    exact (cycleFound_ruleSnapshot ready found).mp (still number below)
      ⟨c, (path_graph ready within kept).mpr cycle⟩

theorem quiet_of_not_cyclic (ready : grammar.Ready) (acyclic : ¬ grammar.Cyclic) (round : Nat) :
    grammar.Quiet round :=
  fun cyclic => acyclic (cyclic.mono (related_family_le ready round))

/-- After quiet rounds the relations are the iterates of the projection. -/
theorem related_family_eq (ready : grammar.Ready) {round : Nat}
    (quiet : ∀ earlier < round, grammar.Quiet earlier) :
    (grammar.family round).Related = grammar.project^[round] ⊥ := by
  induction round with
  | zero =>
    funext name source target
    simp [Family.Related, Grammar.family]
  | succ round ih =>
    rw [Function.iterate_succ_apply', ← ih fun earlier before => quiet earlier (by omega)]
    exact related_following_eq ready (ready.within_family round) (quiet round (by omega))

private theorem related_mono (ready : grammar.Ready) {round : Nat}
    (quiet : ∀ earlier ≤ round, grammar.Quiet earlier) :
    (grammar.family round).Related ≤ (grammar.family (round + 1)).Related := by
  rw [related_family_eq ready fun earlier before => quiet earlier (by omega),
    related_family_eq ready fun earlier before => quiet earlier (by omega)]
  exact Monotone.monotone_iterate_of_le_map grammar.project.monotone bot_le (Nat.le_succ round)

/-- Once a quiet round repeats the relations of the round before, they are the least ones. -/
theorem related_eq_least (ready : grammar.Ready) {round : Nat} (quiet : grammar.Quiet round)
    (repeated : (grammar.family (round + 1)).Related = (grammar.family round).Related) :
    (grammar.family round).Related = grammar.leastRelations := by
  apply le_antisymm (related_family_le ready round)
  refine OrderHom.lfp_le _ ?_
  rw [← related_following_eq ready (ready.within_family round) quiet]
  exact le_of_eq repeated

/-! ### How long the relations can grow -/

def pairs (grammar : Grammar) : Finset ((_ : String) × String × String) :=
  grammar.nonterminals.keys.toFinset.sigma fun name =>
    (grammar.attributesOf name).toFinset.offDiag

private theorem card_pairs_le (grammar : Grammar) : grammar.pairs.card ≤ grammar.pairCount := by
  rw [pairs, Finset.card_sigma, pairCount]
  apply Finset.sum_le_sum
  intro name _
  have less := (grammar.attributesOf name).toFinset_card_le
  rw [Finset.offDiag_card, ← Nat.mul_sub_one]
  exact Nat.mul_le_mul less (Nat.sub_le_sub_right less 1)

private theorem mem_pairs_of_related (ready : grammar.Ready) {round : Nat} (quiet : grammar.Quiet round)
    {name source target : String}
    (related : (grammar.family (round + 1)).Related name source target) :
    ⟨name, source, target⟩ ∈ grammar.pairs := by
  have defined : grammar.Defines name := by
    by_contra undefined
    simp [Family.Related, family_of_not_defined undefined] at related
  obtain ⟨positions, present⟩ := OrderedMap.exists_of_mem_keys related
  obtain ⟨_, _, i, j, _, first, second⟩ := ready.within_family (round + 1) name _ present
  have owned {position : Nat} {found : String}
      (here : (Text.sorted (grammar.attributesOf name))[position]? = some found) :
      found ∈ grammar.attributesOf name :=
    (List.mergeSort_perm _ _).mem_iff.mp (List.mem_of_getElem? here)
  have different : source ≠ target := by
    rintro rfl
    obtain ⟨rule, kept, _, cycle⟩ :=
      related_following_le ready (ready.within_family round) name source source related
    exact quiet ⟨rule, kept, _, cycle⟩
  simp only [pairs, Finset.mem_sigma, List.mem_toFinset, Finset.mem_offDiag]
  exact ⟨ready.mem_keys_iff.mpr defined, owned first, owned second, different⟩

def relatedPairs (grammar : Grammar) (round : Nat) : Finset ((_ : String) × String × String) :=
  grammar.pairs.filter fun pair =>
    ⟨⟨0, pair.2.1⟩, ⟨0, pair.2.2⟩⟩ ∈ (grammar.family round pair.1).keys

private theorem mem_relatedPairs {round : Nat} {name source target : String} :
    ⟨name, source, target⟩ ∈ grammar.relatedPairs round ↔
      ⟨name, source, target⟩ ∈ grammar.pairs ∧
        (grammar.family round).Related name source target := Finset.mem_filter

/-- A quiet round drops no pair, so one that changes the relations adds a pair. -/
theorem card_relatedPairs_lt (ready : grammar.Ready) {round : Nat}
    (quiet : ∀ earlier ≤ round, grammar.Quiet earlier)
    (changes : (grammar.family (round + 1)).Related ≠ (grammar.family round).Related) :
    (grammar.relatedPairs round).card < (grammar.relatedPairs (round + 1)).card := by
  have before := related_mono ready quiet
  obtain ⟨name, source, target, new, absent⟩ : ∃ name source target,
      (grammar.family (round + 1)).Related name source target ∧
        ¬ (grammar.family round).Related name source target := by
    by_contra! same
    exact changes (le_antisymm (fun name source target => same name source target) before)
  have kept : grammar.relatedPairs round ⊆ grammar.relatedPairs (round + 1) :=
    Finset.monotone_filter_right _ fun pair _ => before pair.1 pair.2.1 pair.2.2
  have pair := mem_pairs_of_related ready (quiet round (Nat.le_refl _)) new
  apply Finset.card_lt_card
  rw [Finset.ssubset_iff_of_subset kept]
  exact ⟨⟨name, source, target⟩, mem_relatedPairs.mpr ⟨pair, new⟩,
    fun member => absent (mem_relatedPairs.mp member).2⟩

private theorem le_card_relatedPairs (ready : grammar.Ready) {round : Nat}
    (quiet : ∀ earlier < round, grammar.Quiet earlier)
    (changes : ∀ earlier < round,
      (grammar.family (earlier + 1)).Related ≠ (grammar.family earlier).Related) :
    round ≤ (grammar.relatedPairs round).card := by
  induction round with
  | zero => exact Nat.zero_le _
  | succ round ih =>
    have enough := ih (fun earlier less => quiet earlier (by omega))
      (fun earlier less => changes earlier (by omega))
    have more := card_relatedPairs_lt ready (fun earlier less => quiet earlier (by omega))
      (changes round (Nat.lt_succ_self _))
    omega

/-- While rounds are quiet, one of the first as many as there are pairs repeats its relations. -/
theorem exists_repeated (ready : grammar.Ready)
    (quiet : ∀ round ≤ grammar.pairCount, grammar.Quiet round) :
    ∃ round ≤ grammar.pairCount,
      (grammar.family (round + 1)).Related = (grammar.family round).Related := by
  by_contra! changes
  have many : grammar.pairCount + 1 ≤ (grammar.relatedPairs (grammar.pairCount + 1)).card :=
    le_card_relatedPairs ready (fun earlier less => quiet earlier (by omega))
      fun earlier less => changes earlier (by omega)
  have few : (grammar.relatedPairs (grammar.pairCount + 1)).card ≤ grammar.pairs.card :=
    Finset.card_filter_le _ _
  have bound := grammar.card_pairs_le
  omega

/-! ### Stable rounds -/

theorem mem_keys_family (ready : grammar.Ready) {round : Nat} {name : String} {edge : Edge} :
    edge ∈ (grammar.family round name).keys ↔ ∃ source target,
      edge = ⟨⟨0, source⟩, ⟨0, target⟩⟩ ∧ (grammar.family round).Related name source target := by
  constructor
  · intro member
    obtain ⟨positions, present⟩ := OrderedMap.exists_of_mem_keys member
    obtain ⟨first, second, _⟩ := ready.within_family round name _ present
    obtain ⟨⟨_, source⟩, ⟨_, target⟩⟩ := edge
    obtain rfl : _ = (0 : Int) := first
    obtain rfl : _ = (0 : Int) := second
    exact ⟨source, target, rfl, member⟩
  · rintro ⟨source, target, rfl, related⟩
    exact related

theorem related_eq_of_stable (ready : grammar.Ready) {round : Nat}
    (stable : grammar.stableRound round = true) :
    (grammar.family (round + 1)).Related = (grammar.family round).Related := by
  funext name source target
  by_cases defined : grammar.Defines name
  · have marked := List.all_eq_true.mp stable name (ready.mem_keys_iff.mpr defined)
    simp only [snapshot, Bool.and_eq_true, OrderedMap.sameKeys_iff] at marked
    exact propext (marked.2 _)
  · simp only [Family.Related, family_of_not_defined defined]

theorem stable_of_related_eq (ready : grammar.Ready) {round : Nat} (later : round ≠ 0)
    (repeated : (grammar.family (round + 1)).Related = (grammar.family round).Related) :
    grammar.stableRound round = true := by
  apply List.all_eq_true.mpr
  intro name _
  simp only [snapshot, later, ne_eq, not_false_eq_true, decide_true, Bool.true_and,
    OrderedMap.sameKeys_iff]
  intro edge
  rw [mem_keys_family ready, mem_keys_family ready, repeated]

theorem exists_stable (ready : grammar.Ready) (acyclic : ¬ grammar.Cyclic) :
    ∃ round ≤ grammar.pairCount + 1, grammar.stableRound round = true := by
  have quiet := quiet_of_not_cyclic ready acyclic
  obtain ⟨round, inside, repeated⟩ := exists_repeated ready fun round _ => quiet round
  cases round with
  | succ round => exact ⟨round + 1, by omega, stable_of_related_eq ready (by omega) repeated⟩
  | zero =>
    refine ⟨1, by omega, stable_of_related_eq ready (by omega) ?_⟩
    have next (round : Nat) : (grammar.family (round + 1)).Related =
        grammar.project (grammar.family round).Related :=
      related_following_eq ready (ready.within_family round) (quiet round)
    rw [next 1, repeated, ← next 0, repeated]

theorem related_eq_least_of_stable (ready : grammar.Ready) {round : Nat}
    (stable : grammar.stableRound round = true) (quiet : grammar.Quiet round) :
    (grammar.family round).Related = grammar.leastRelations ∧ ¬ grammar.Cyclic := by
  have least := related_eq_least ready quiet (related_eq_of_stable ready stable)
  refine ⟨least, fun cyclic => quiet ?_⟩
  rw [least]
  exact cyclic

theorem acyclic_showsRounds (ready : grammar.Ready) {rounds : Nat} {analysis : Analysis}
    (shows : grammar.ShowsRounds rounds analysis) :
    analysis.acyclic = true ↔ ∀ round < rounds, grammar.Quiet round := by
  rw [shows.acyclic]
  constructor
  · intro still round before
    exact (quiet_iff ready).mpr fun number below => still number below round before
  · intro quiet number below round before
    exact (quiet_iff ready).mp (quiet round before) number below

end Grammar
end AttributeGrammar
