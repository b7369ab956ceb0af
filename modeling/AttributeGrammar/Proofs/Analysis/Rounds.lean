import AttributeGrammar.Analysis.Round
import AttributeGrammar.Proofs.Dependency
import AttributeGrammar.Proofs.Analysis.Search
import AttributeGrammar.Proofs.Grammar.Reconciliation

/-! The rounds of the analysis as a sequence of families of relations.
One round makes from the relations of every nonterminal those of the next round: it puts them on the
children of each rule and collects what the searches of the rule's graph project to its left side.
-/
namespace AttributeGrammar
open Relation (TransGen)

abbrev Family := String → Relations

abbrev NameRelations := String → String → String → Prop

namespace Family

def Related (family : Family) : NameRelations := fun name source target =>
  ⟨⟨0, source⟩, ⟨0, target⟩⟩ ∈ (family name).keys

end Family

namespace Grammar

/-- Some rule has the symbol on its left side. -/
def Defines (grammar : Grammar) (name : String) : Prop :=
  ∃ rule ∈ grammar.rules, rule.leftName? = some name

/-- What a round puts on the children of a rule, with the relations of the round before. -/
def redecorated (grammar : Grammar) (family : Family) (rule : Rule) : List Dependency :=
  (rule.symbols.zipIdx.drop 1).flatMap fun child =>
    if Analysis.isChild grammar child.1 then
      (Analysis.redecorateChild child.1 child.2 (family child.1.name).entries).1 else []

def graph (grammar : Grammar) (family : Family) (rule : Rule) : RuleGraph :=
  ⟨rule, grammar.redecorated family rule⟩

def projections (grammar : Grammar) (family : Family) (number : Nat) : List Dependency :=
  grammar.rules[number]?.elim [] fun rule => (grammar.graph family rule).findings.projections

def following (grammar : Grammar) (family : Family) : Family := fun name =>
  Relations.ofList ((grammar.numbersOf name).flatMap (grammar.projections family))

/-- The relations that each round starts from: none, and later those that the round before found. -/
def family (grammar : Grammar) : (round : Nat) → Family
  | 0 => fun _ => ∅
  | round + 1 => grammar.following (grammar.family round)

/-- A dependency between attributes of the left side, resolved to where every occurrence of the
symbol has them. -/
def Relates (grammar : Grammar) (name : String) (d : Dependency) : Prop :=
  d.1.source.symbolIndex = 0 ∧ d.1.target.symbolIndex = 0 ∧
    ∃ source target : Nat, d.2 = ⟨some source, some target⟩ ∧
      (Text.sorted (grammar.attributesOf name))[source]? = some d.1.source.name ∧
      (Text.sorted (grammar.attributesOf name))[target]? = some d.1.target.name

def Within (grammar : Grammar) (family : Family) : Prop :=
  ∀ name, ∀ d ∈ (family name).entries, grammar.Relates name d

variable {grammar : Grammar} {family : Family} {rule : Rule}

theorem defines_iff {name : String} : grammar.Defines name ↔ grammar.numbersOf name ≠ [] := by
  constructor
  · rintro ⟨rule, kept, named⟩ empty
    obtain ⟨number, found⟩ := List.mem_iff_getElem?.mp kept
    have listed : number ∈ grammar.numbersOf name := mem_numbersOf.mpr ⟨rule, found, named⟩
    rw [empty] at listed
    cases listed
  · intro listed
    obtain ⟨number, member⟩ := List.exists_mem_of_ne_nil _ listed
    obtain ⟨rule, found, named⟩ := mem_numbersOf.mp member
    exact ⟨rule, List.mem_of_getElem? found, named⟩

theorem family_of_not_defined {name : String} (undefined : ¬ grammar.Defines name) (round : Nat) :
    grammar.family round name = ∅ := by
  have ruleless : grammar.numbersOf name = [] := by
    by_contra listed
    exact undefined (defines_iff.mpr listed)
  cases round with
  | zero => rfl
  | succ round =>
    change Relations.ofList ((grammar.numbersOf name).flatMap _) = ∅
    rw [ruleless]
    rfl

theorem nodup_keys_family (grammar : Grammar) (round : Nat) (name : String) :
    (grammar.family round name).keys.Nodup := by
  cases round with
  | zero => exact List.nodup_nil
  | succ round => exact Relations.nodup_keys_ofList _

theorem Drafted.mem_keys_iff (drafted : grammar.Drafted) {name : String} :
    name ∈ grammar.nonterminals.keys ↔ grammar.Defines name := by
  rw [defines_iff]
  constructor
  · exact drafted.kept name
  · intro listed
    by_contra absent
    have empty := drafted.numbers name
    rw [OrderedMap.get?_eq_none_iff.mpr absent] at empty
    exact listed empty.symm

theorem Drafted.isChild_iff (drafted : grammar.Drafted) {symbol : Symbol} :
    Analysis.isChild grammar symbol = true ↔ grammar.Defines symbol.name := by
  rw [Analysis.isChild, Bool.and_eq_true, OrderedMap.contains_iff, drafted.mem_keys_iff]
  refine ⟨And.right, fun defined => ⟨?_, defined⟩⟩
  obtain ⟨rule, kept, named⟩ := defined
  obtain ⟨name, registered, same⟩ := drafted.registered rule kept
  obtain rfl : name = symbol.name := by simpa [named] using same.symm
  simpa using registered

/-- The relations of a child whose attributes they name are put on it without fault, those left out
that it declares itself. -/
theorem redecorateChild_spec {child : Symbol} {relations : List Dependency} (place : Nat)
    (named : ∀ d ∈ relations, d.1.source.name ∈ child.attributes.keys) :
    (Analysis.redecorateChild child place relations).2 = none ∧
    ∀ d, d ∈ (Analysis.redecorateChild child place relations).1 ↔
      ∃ relation ∈ relations, Dependency.redecorated relation place = d ∧
        ∀ data, child.attributes.get? relation.1.source.name = some data →
          d.1 ∉ data.dependencies.keys := by
  induction relations with
  | nil => simp [Analysis.redecorateChild]
  | cons relation rest ih =>
    obtain ⟨fault, members⟩ := ih fun d later => named d (List.mem_cons_of_mem _ later)
    obtain ⟨data, found⟩ := OrderedMap.exists_get? (named relation List.mem_cons_self)
    simp only [Analysis.redecorateChild, found]
    have head (d : Dependency) : (Dependency.redecorated relation place = d ∧
        ∀ data, child.attributes.get? relation.1.source.name = some data →
          d.1 ∉ data.dependencies.keys) ↔ Dependency.redecorated relation place = d ∧
            d.1 ∉ data.dependencies.keys := by
      simp [found]
    split
    · next declared =>
      refine ⟨fault, fun d => ?_⟩
      simp only [members, List.mem_cons, exists_eq_or_imp, head]
      refine ⟨Or.inr, fun either => either.resolve_left ?_⟩
      rintro ⟨rfl, absent⟩
      exact absent (OrderedMap.contains_iff.mp declared)
    · next undeclared =>
      refine ⟨fault, fun d => ?_⟩
      simp only [members, List.mem_cons, exists_eq_or_imp, head]
      have absent : (Dependency.redecorated relation place).1 ∉ data.dependencies.keys :=
        fun present => undeclared (OrderedMap.contains_iff.mpr present)
      constructor
      · rintro (rfl | later)
        · exact Or.inl ⟨rfl, absent⟩
        · exact Or.inr later
      · rintro (⟨rfl, _⟩ | later)
        · exact Or.inl rfl
        · exact Or.inr later

theorem mem_children {rule : Rule} {child : Symbol × Nat} :
    child ∈ rule.symbols.zipIdx.drop 1 ↔
      1 ≤ child.2 ∧ rule.symbols[child.2]? = some child.1 := by
  obtain ⟨symbol, place⟩ := child
  cases symbols : rule.symbols with
  | nil => simp
  | cons left right =>
    simp only [List.zipIdx_cons, List.drop_succ_cons, List.drop_zero, List.getElem?_cons]
    simp only [Nat.zero_add, List.mem_zipIdx_iff_le_and_getElem?_sub]
    constructor
    · rintro ⟨least, found⟩
      refine ⟨least, ?_⟩
      rw [if_neg (by omega)]
      exact found
    · rintro ⟨least, found⟩
      rw [if_neg (by omega)] at found
      exact ⟨least, found⟩

theorem Ready.keys_of_getElem? (ready : grammar.Ready) (kept : rule ∈ grammar.rules) {place : Nat}
    {symbol : Symbol} (found : rule.symbols[place]? = some symbol) :
    symbol.attributes.keys = Text.sorted (grammar.attributesOf symbol.name) :=
  ready.uniform rule kept symbol (List.mem_of_getElem? found)

theorem Ready.names_child (ready : grammar.Ready) (within : grammar.Within family)
    (kept : rule ∈ grammar.rules) {place : Nat} {child : Symbol}
    (found : rule.symbols[place]? = some child) :
    ∀ d ∈ (family child.name).entries, d.1.source.name ∈ child.attributes.keys := by
  intro d member
  obtain ⟨_, _, source, target, _, name, _⟩ := within child.name d member
  rw [ready.keys_of_getElem? kept found]
  exact List.mem_of_getElem? name

/-- A child declares a relation that is put on it just when the rule does. -/
theorem Ready.declares_redecorated_iff (ready : grammar.Ready) (within : grammar.Within family)
    (kept : rule ∈ grammar.rules) {place : Nat} {child : Symbol}
    (found : rule.symbols[place]? = some child) {relation : Dependency}
    (member : relation ∈ (family child.name).entries) :
    (∀ data, child.attributes.get? relation.1.source.name = some data →
        (Dependency.redecorated relation place).1 ∉ data.dependencies.keys) ↔
      relation.1.movedTo place ∉ rule.declared.map Prod.fst := by
  have sound := ready.sound rule kept
  obtain ⟨data, stored⟩ :=
    OrderedMap.exists_get? (ready.names_child within kept found relation member)
  have from_source := Rule.declared_from sound found (OrderedMap.mem_of_get? stored)
  have same : (Dependency.redecorated relation place).1 ∈ data.dependencies.keys ↔
      relation.1.movedTo place ∈ rule.declared.map Prod.fst := by
    constructor
    · intro declared
      obtain ⟨positions, present⟩ := OrderedMap.exists_of_mem_keys declared
      exact List.mem_map.mpr ⟨_,
        Rule.mem_declared.mpr ⟨place, child, found, _, OrderedMap.mem_of_get? stored, present⟩, rfl⟩
    · intro declared
      obtain ⟨other, present, edge⟩ := List.mem_map.mp declared
      have here : other ∈ data.dependencies.entries := by
        have selected : other ∈ rule.declared.filter
            (fun d => d.1.source = ⟨place, relation.1.source.name⟩) :=
          List.mem_filter.mpr ⟨present, by rw [edge]; simp [Edge.movedTo]⟩
        rw [from_source] at selected
        exact selected
      change relation.1.movedTo place ∈ data.dependencies.keys
      rw [← edge]
      exact OrderedMap.mem_keys_of_mem here
  rw [← same]
  exact ⟨fun all => all data stored, fun absent other found => by
    obtain rfl : data = other := by simpa [stored] using found
    exact absent⟩

theorem mem_redecorated (ready : grammar.Ready) (within : grammar.Within family)
    (kept : rule ∈ grammar.rules) {d : Dependency} :
    d ∈ grammar.redecorated family rule ↔ ∃ (place : Nat) (child : Symbol), 1 ≤ place ∧
      rule.symbols[place]? = some child ∧ grammar.Defines child.name ∧
      ∃ relation ∈ (family child.name).entries, Dependency.redecorated relation place = d ∧
        d.1 ∉ rule.declared.map Prod.fst := by
  simp only [redecorated, List.mem_flatMap, mem_children]
  constructor
  · rintro ⟨⟨child, place⟩, ⟨least, found⟩, member⟩
    split at member
    · next taken =>
      have spec := (redecorateChild_spec place (ready.names_child within kept found)).2 d
      obtain ⟨relation, present, rfl, absent⟩ := spec.mp member
      exact ⟨place, child, least, found, ready.isChild_iff.mp taken, relation, present, rfl,
        (ready.declares_redecorated_iff within kept found present).mp absent⟩
    · cases member
  · rintro ⟨place, child, least, found, defined, relation, present, rfl, absent⟩
    refine ⟨⟨child, place⟩, ⟨least, found⟩, ?_⟩
    rw [if_pos (ready.isChild_iff.mpr defined),
      (redecorateChild_spec place (ready.names_child within kept found)).2]
    exact ⟨relation, present, rfl,
      (ready.declares_redecorated_iff within kept found present).mpr absent⟩

private theorem sublist_redecorateChild (child : Symbol) (place : Nat) (relations : List Dependency) :
    (Analysis.redecorateChild child place relations).1.Sublist
      (relations.map fun relation => Dependency.redecorated relation place) := by
  induction relations with
  | nil => exact List.Sublist.refl []
  | cons relation rest ih =>
    unfold Analysis.redecorateChild
    dsimp only
    split
    · exact List.nil_sublist _
    · split
      · exact ih.cons _
      · exact ih.cons_cons _

theorem source_of_mem_redecorateChild {child : Symbol} {place : Nat} {relations : List Dependency}
    {edge : Edge}
    (member : edge ∈ (Analysis.redecorateChild child place relations).1.map Prod.fst) :
    edge.source.symbolIndex = place := by
  obtain ⟨d, put, rfl⟩ := List.mem_map.mp member
  obtain ⟨relation, _, rfl⟩ := List.mem_map.mp ((sublist_redecorateChild child place _).subset put)
  rfl

private theorem Within.edge_eq_of_movedTo (within : grammar.Within family) {name : String}
    {first second : Dependency} (here : first ∈ (family name).entries)
    (there : second ∈ (family name).entries) {place : Nat}
    (moved : first.1.movedTo place = second.1.movedTo place) : first.1 = second.1 := by
  obtain ⟨firstSource, firstTarget, _⟩ := within name first here
  obtain ⟨secondSource, secondTarget, _⟩ := within name second there
  obtain ⟨⟨⟨_, _⟩, ⟨_, _⟩⟩, _⟩ := first
  obtain ⟨⟨⟨_, _⟩, ⟨_, _⟩⟩, _⟩ := second
  simp_all [Edge.movedTo]

/-- No edge is put on the children twice, as each child has a place of its own. -/
theorem nodup_redecorated (within : grammar.Within family)
    (distinct : ∀ name, (family name).keys.Nodup) :
    ((grammar.redecorated family rule).map Prod.fst).Nodup := by
  rw [redecorated, List.map_flatMap, List.nodup_flatMap]
  constructor
  · rintro ⟨child, place⟩ -
    split
    · refine ((sublist_redecorateChild child place _).map Prod.fst).nodup ?_
      rw [List.map_map]
      refine List.Nodup.map_on (fun first here second there moved => ?_)
        (List.Nodup.of_map _ (distinct child.name))
      exact List.inj_on_of_nodup_map (distinct child.name) here there
        (within.edge_eq_of_movedTo here there moved)
    · exact List.nodup_nil
  · have places := (Sequence.pairwise_zipIdx rule.symbols).sublist (List.drop_sublist 1 _)
    refine places.imp fun {earlier later} before edge here there => ?_
    dsimp only at here there
    split at here
    · split at there
      · have first := source_of_mem_redecorateChild here
        have second := source_of_mem_redecorateChild there
        omega
      · cases there
    · cases here

theorem Ready.resolves_redecorated (ready : grammar.Ready) (kept : rule ∈ grammar.rules)
    {place : Nat} {child : Symbol} (found : rule.symbols[place]? = some child)
    {relation : Dependency} (relates : grammar.Relates child.name relation) :
    rule.Resolves (Dependency.redecorated relation place) := by
  obtain ⟨_, _, source, target, positions, first, second⟩ := relates
  rw [← ready.keys_of_getElem? kept found] at first second
  exact ⟨source, target, positions, ⟨place, child, found, rfl, first⟩,
    ⟨place, child, found, rfl, second⟩⟩

theorem Ready.resolves_of_mem_redecorated (ready : grammar.Ready) (within : grammar.Within family)
    (kept : rule ∈ grammar.rules) : ∀ d ∈ grammar.redecorated family rule, rule.Resolves d := by
  intro d member
  obtain ⟨place, child, _, found, _, relation, present, rfl, _⟩ :=
    (mem_redecorated ready within kept).mp member
  exact ready.resolves_redecorated kept found (within child.name relation present)

theorem Ready.sound_graph (ready : grammar.Ready) (within : grammar.Within family)
    (kept : rule ∈ grammar.rules) : (grammar.graph family rule).Sound := by
  have resolves := ready.resolves_of_mem_redecorated within kept
  exact ⟨ready.sound rule kept, fun d member => (resolves d member).holds.1,
    fun d member => (resolves d member).holds.2⟩

theorem Ready.leftKeys (ready : grammar.Ready) (kept : rule ∈ grammar.rules) {name : String}
    (named : rule.leftName? = some name) : ∃ left, rule.left? = some left ∧ left.name = name ∧
      rule.symbols[0]? = some left ∧
      left.attributes.keys = Text.sorted (grammar.attributesOf name) := by
  obtain ⟨left, first, rfl⟩ := Option.map_eq_some_iff.mp named
  have found : rule.symbols[0]? = some left := by rw [← List.head?_eq_getElem?]; exact first
  exact ⟨left, first, rfl, found, ready.keys_of_getElem? kept found⟩

private theorem rootPosition_spec {graph : RuleGraph} {left : Symbol}
    (first : graph.rule.left? = some left) {name : String} (member : name ∈ left.attributes.keys) :
    ∃ position : Nat, graph.rootPosition name = some (position : Int) ∧
      left.attributes.keys[position]? = some name := by
  obtain ⟨position, found⟩ := OrderedMap.exists_indexOf? member
  exact ⟨position, by simp [RuleGraph.rootPosition, first, found],
    OrderedMap.getElem?_of_indexOf? found⟩

theorem Ready.relates_projection (ready : grammar.Ready) (within : grammar.Within family)
    (kept : rule ∈ grammar.rules) {name : String} (named : rule.leftName? = some name) :
    ∀ d ∈ (grammar.graph family rule).findings.projections, grammar.Relates name d := by
  intro d member
  have sound := ready.sound_graph within kept
  obtain ⟨source, target, sourceAtRoot, targetAtRoot, _, path, rfl⟩ :=
    RuleGraph.projects_findings sound d member
  obtain ⟨left, first, _, found, keys⟩ := ready.leftKeys kept named
  have named {c : Coordinate} (atRoot : c.atRoot = true) (holds : rule.Holds c) :
      c.name ∈ left.attributes.keys := by
    obtain ⟨place, symbol, present, index, member⟩ := holds
    obtain rfl : place = 0 := by
      have zero := Coordinate.atRoot_iff.mp atRoot
      omega
    obtain rfl : left = symbol := by simpa [found] using present
    exact member
  have holds := sound.holds_of_path path
  have start : (grammar.graph family rule).rule.left? = some left := first
  obtain ⟨i, atSource, here⟩ := rootPosition_spec start (named sourceAtRoot holds.1)
  obtain ⟨j, atTarget, there⟩ := rootPosition_spec start (named targetAtRoot holds.2)
  rw [keys] at here there
  exact ⟨rfl, rfl, i, j, by rw [RuleGraph.projection, atSource, atTarget], here, there⟩

private theorem Ready.within_following (ready : grammar.Ready) (within : grammar.Within family) :
    grammar.Within (grammar.following family) := by
  intro name d member
  rcases OrderedMap.mem_insertAll member with absent | found
  · simp at absent
  · obtain ⟨number, listed, member⟩ := List.mem_flatMap.mp found
    obtain ⟨rule, kept, named⟩ := mem_numbersOf.mp listed
    simp only [projections, kept, Option.elim_some] at member
    exact ready.relates_projection within (List.mem_of_getElem? kept) named d member

theorem Ready.within_family (ready : grammar.Ready) (round : Nat) :
    grammar.Within (grammar.family round) := by
  induction round with
  | zero => simp [Within, Grammar.family]
  | succ round ih => exact ready.within_following ih

end Grammar
end AttributeGrammar
