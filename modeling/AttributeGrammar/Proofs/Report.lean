import AttributeGrammar.Report.Data
import AttributeGrammar.Report.Format
import AttributeGrammar.Proofs.Dependency
import AttributeGrammar.Proofs.Grammar.Draft
import AttributeGrammar.Proofs.Outcome
import Mathlib

/-! The data that is exported of a study.
It shows the snapshots of every history with their relations in ascending order. If all histories have
one snapshot for each round, the data has the form that is checked before it is read again.
-/
namespace AttributeGrammar

namespace Json
open Text

private theorem points_injective : Function.Injective points := by
  intro left right same
  have texts := congrArg shownText same
  rwa [shownText_points, shownText_points] at texts

@[simp] theorem ofString_inj {left right : String} : ofString left = ofString right ↔ left = right := by
  rw [ofString, ofString, Json.text.injEq, points_injective.eq_iff]

private theorem field?_ofFields (name : String) (fields : List (String × Json)) :
    (ofFields fields).field? name = (fields.find? fun field => field.1 == name).map Prod.snd := by
  have same (field : String × Json) : (points field.1 == points name) = (field.1 == name) := by
    rw [Bool.eq_iff_iff, beq_iff_eq, beq_iff_eq, points_injective.eq_iff]
  simp only [ofFields, field?, List.find?_map, Function.comp_def, same, Option.map_map]

end Json

namespace Report
open Json

private theorem position_injective : Function.Injective position := by
  intro left right same
  cases left <;> cases right <;> simp_all [position]

private theorem attributeEnd_inj {left right : Coordinate} {place other : Option Int} :
    attributeEnd left place = attributeEnd right other ↔ left = right ∧ place = other := by
  obtain ⟨_, _⟩ := left
  obtain ⟨_, _⟩ := right
  simp only [attributeEnd, ofFields, List.map_cons, List.map_nil, Json.object.injEq, List.cons.injEq,
    Prod.mk.injEq, true_and, and_true, ofString_inj, Json.int.injEq, position_injective.eq_iff,
    Coordinate.mk.injEq]
  tauto

private theorem dependencyData_injective : Function.Injective dependencyData := by
  rintro ⟨⟨_, _⟩, ⟨_, _⟩⟩ ⟨⟨_, _⟩, ⟨_, _⟩⟩ same
  simp only [dependencyData, ofFields, List.map_cons, List.map_nil, Json.object.injEq,
    List.cons.injEq, Prod.mk.injEq, true_and, and_true, attributeEnd_inj] at same
  obtain ⟨⟨rfl, rfl⟩, rfl, rfl⟩ := same
  rfl

/-- The value names an attribute, the index of its symbol and its place there, if that is known. -/
structure NamesAttribute (c : Coordinate) (place : Option Int) (value : Json) : Prop where
  name : value.field? "attributeName" = some (ofString c.name)
  symbolIndex : value.field? "symbolIndex" = some (.int c.symbolIndex)
  place : value.field? "attributeIndex" = some (position place)

/-- The item holds the source of the dependency in its field `from`, and the target in `to`. -/
def NamesEnds (d : Dependency) (item : Json) : Prop :=
  (∃ source, item.field? "from" = some source ∧ NamesAttribute d.1.source d.2.source source) ∧
  ∃ target, item.field? "to" = some target ∧ NamesAttribute d.1.target d.2.target target

private theorem namesAttribute_attributeEnd (c : Coordinate) (place : Option Int) :
    NamesAttribute c place (attributeEnd c place) := by
  constructor
  · rw [attributeEnd, field?_ofFields]; rfl
  · rw [attributeEnd, field?_ofFields]; rfl
  · rw [attributeEnd, field?_ofFields]; rfl

private theorem namesEnds_dependencyData (d : Dependency) : NamesEnds d (dependencyData d) := by
  refine ⟨⟨_, ?_, namesAttribute_attributeEnd _ _⟩, _, ?_, namesAttribute_attributeEnd _ _⟩
  · rw [dependencyData, field?_ofFields]; rfl
  · rw [dependencyData, field?_ofFields]; rfl

/-- The value has one item for each relation and no item twice. The fields `from` and `to` of the items
name the ends of the relations, which are in strictly ascending order. -/
def Presents (relations : Relations) (value : Json) : Prop :=
  ∃ shown : List Dependency, value = .list (shown.map dependencyData) ∧
    shown.Perm relations.entries ∧ (shown.map dependencyData).Nodup ∧
    (shown.Pairwise fun earlier later => earlier.1.key < later.1.key) ∧
    List.Forall₂ NamesEnds shown (shown.map dependencyData)

private theorem presents_relationsData {relations : Relations} (distinct : relations.keys.Nodup) :
    Presents relations (relationsData relations) := by
  have ascending := Relations.pairwise_sortedEntries distinct
  refine ⟨_, rfl, List.mergeSort_perm _ _, ?_, ascending,
    List.forall₂_map_right_iff.mpr (List.forall₂_same.mpr fun d _ => namesEnds_dependencyData d)⟩
  refine List.Nodup.map dependencyData_injective (ascending.imp fun before same => ?_)
  rw [same] at before
  exact lt_irrefl _ before

def PresentsRuleRound (snapshot : RuleRound) (value : Json) : Prop :=
  (∃ projections, value.field? "rootProjections" = some projections ∧
    Presents snapshot.projections projections) ∧
  ∃ redecorated, value.field? "redecoratedRelations" = some redecorated ∧
    Presents snapshot.redecorated redecorated

def PresentsNonterminalRound (snapshot : NonterminalRound) (value : Json) : Prop :=
  ∃ relations, value.field? "transitiveRelations" = some relations ∧
    Presents snapshot.relations relations

/-- The part of a rule or a nonterminal has an item for each round of its history. -/
def PresentsHistory {Snapshot : Type} (presents : Snapshot → Json → Prop)
    (history : List Snapshot) (part : Json) : Prop :=
  ∃ rounds, part.field? "iterations" = some (.list rounds) ∧ List.Forall₂ presents history rounds

/-- The data has a part for each rule and each nonterminal, in order. -/
structure PresentsStudy (study : Study) (value : Json) : Prop where
  rules : ∃ parts, value.field? "productionRules" = some (.list parts) ∧
    List.Forall₂ (fun number part => part.field? "index" = some (.int (Int.ofNat number)) ∧
      PresentsHistory PresentsRuleRound (study.analysis.rule number).history part)
      (List.range study.grammar.rules.length) parts
  nonterminals : ∃ parts, value.field? "nonterminals" = some (.list parts) ∧
    List.Forall₂ (fun name part => part.field? "name" = some (ofString name) ∧
      PresentsHistory PresentsNonterminalRound (study.analysis.history name) part)
      study.grammar.nonterminals.keys parts

private theorem presentsHistory_map {Snapshot : Type} {presents : Snapshot → Json → Prop}
    {history : List Snapshot} {show? : Snapshot → Json} {part : Json}
    (found : part.field? "iterations" = some (.list (history.map show?)))
    (each : ∀ snapshot ∈ history, presents snapshot (show? snapshot)) :
    PresentsHistory presents history part :=
  ⟨_, found, List.forall₂_map_right_iff.mpr (List.forall₂_same.mpr each)⟩

private theorem presents_ruleRoundData {snapshot : RuleRound}
    (projections : snapshot.projections.keys.Nodup)
    (redecorated : snapshot.redecorated.keys.Nodup) :
    PresentsRuleRound snapshot (ruleRoundData snapshot) := by
  refine ⟨⟨_, ?_, presents_relationsData projections⟩, _, ?_, presents_relationsData redecorated⟩
  · rw [ruleRoundData, field?_ofFields]; rfl
  · rw [ruleRoundData, field?_ofFields]; rfl

private theorem presents_nonterminalRoundData {snapshot : NonterminalRound}
    (distinct : snapshot.relations.keys.Nodup) :
    PresentsNonterminalRound snapshot (nonterminalRoundData snapshot) := by
  refine ⟨_, ?_, presents_relationsData distinct⟩
  rw [nonterminalRoundData, field?_ofFields]
  rfl

private theorem hasFields_ofFields {names : List String} {fields : List (String × Json)}
    (listed : names ⊆ fields.map Prod.fst) : hasFields names (ofFields fields) = true := by
  rw [hasFields, List.all_eq_true]
  intro name member
  obtain ⟨field, present, same⟩ := List.mem_map.mp (listed member)
  rw [field?_ofFields, Option.isSome_map, List.find?_isSome]
  exact ⟨field, present, by simpa using same⟩

private theorem partFits_ofFields {names : List String} {fields : List (String × Json)}
    {items : List Json} {rounds : Nat} (listed : names ⊆ fields.map Prod.fst)
    (found : (ofFields fields).field? "iterations" = some (.list items))
    (length : items.length = rounds) : partFits names rounds (ofFields fields) = .ok true := by
  have isObject : (ofFields fields).isObject = true := rfl
  rw [partFits, isObject, hasFields_ofFields listed, Bool.true_and, if_pos rfl, fieldOf, found]
  simp [size, members, Except.map, length]

/-- What is made of a rule presents its history and has the form that is checked. -/
theorem ruleData_spec {analysis : Analysis} {rule : Rule} {number : Nat} {part : Json}
    (distinct : ∀ snapshot ∈ (analysis.rule number).history,
      snapshot.projections.keys.Nodup ∧ snapshot.redecorated.keys.Nodup)
    (shown : ruleData analysis rule number = .ok part) :
    part.field? "index" = some (.int (Int.ofNat number)) ∧
      PresentsHistory PresentsRuleRound (analysis.rule number).history part ∧
      partFits ["index", "symbols", "iterations"]
        (analysis.rule number).history.length part = .ok true := by
  obtain ⟨written, _, made⟩ := bind_success shown
  obtain rfl := Except.ok.inj made
  refine ⟨by rw [field?_ofFields]; rfl, presentsHistory_map (by rw [field?_ofFields]; rfl)
    fun snapshot member => ?_, ?_⟩
  · obtain ⟨projections, redecorated⟩ := distinct snapshot member
    exact presents_ruleRoundData projections redecorated
  · exact partFits_ofFields (by simp) (by rw [field?_ofFields]; rfl) (by simp)

private theorem nonterminalData_spec {analysis : Analysis} {entry : String × List Nat}
    (distinct : ∀ snapshot ∈ analysis.history entry.1, snapshot.relations.keys.Nodup) :
    (nonterminalData analysis entry).field? "name" = some (ofString entry.1) ∧
      PresentsHistory PresentsNonterminalRound (analysis.history entry.1)
        (nonterminalData analysis entry) ∧
      partFits ["name", "iterations"] (analysis.history entry.1).length
        (nonterminalData analysis entry) = .ok true := by
  refine ⟨by rw [nonterminalData, field?_ofFields]; rfl,
    presentsHistory_map (by rw [nonterminalData, field?_ofFields]; rfl) fun snapshot member =>
      presents_nonterminalRoundData (distinct snapshot member), ?_⟩
  exact partFits_ofFields (by simp) (by rw [field?_ofFields]; rfl) (by simp)

private theorem partsFit_of {names : List String} {rounds : Nat} {parts : List Json}
    (each : ∀ part ∈ parts, partFits names rounds part = .ok true) :
    partsFit names rounds parts = .ok true := by
  induction parts with
  | nil => rfl
  | cons part rest ih =>
    have later := ih fun other member => each other (List.mem_cons_of_mem _ member)
    simp [partsFit, each part List.mem_cons_self, later, bind, Except.bind]

/-- Data with a verdict and marks is accepted if each of its parts is. -/
theorem isValid_of {value : Json} {verdict : Bool} {marks rules nonterminals : List Json}
    (required : value.isObject && hasFields requiredFields value)
    (acyclic : value.field? "isStronglyAcyclic" = some (.bool verdict))
    (stable : value.field? "isIterationStable" = some (.list marks))
    (inRules : value.field? "productionRules" = some (.list rules))
    (inNonterminals : value.field? "nonterminals" = some (.list nonterminals))
    (rulesFit : ∀ part ∈ rules,
      partFits ["index", "symbols", "iterations"] marks.length part = .ok true)
    (nonterminalsFit : ∀ part ∈ nonterminals,
      partFits ["name", "iterations"] marks.length part = .ok true) :
    isValid value = .ok true := by
  simp [isValid, required, fieldOf, acyclic, stable, Report.rulesFit, Report.nonterminalsFit, inRules,
    inNonterminals, members, partsFit_of rulesFit, partsFit_of nonterminalsFit, bind, Except.bind]

private theorem exists_ruleData (analysis : Analysis) {rule : Rule} {left : Symbol} (number : Nat)
    (first : rule.left? = some left) : ∃ part, ruleData analysis rule number = .ok part := by
  obtain ⟨written, text⟩ := Rule.exists_text first
  exact ⟨_, by simp only [ruleData, text]; rfl⟩

/-- Every rule and every nonterminal has one snapshot for each round, and no snapshot has a relation
twice. -/
structure Aligned (study : Study) : Prop where
  rules : ∀ number < study.grammar.rules.length,
    (study.analysis.rule number).history.length = study.analysis.stability.roundCount
  nonterminals : ∀ name ∈ study.grammar.nonterminals.keys,
    (study.analysis.history name).length = study.analysis.stability.roundCount
  distinctInRules : ∀ number < study.grammar.rules.length,
    ∀ snapshot ∈ (study.analysis.rule number).history,
      snapshot.projections.keys.Nodup ∧ snapshot.redecorated.keys.Nodup
  distinctInNonterminals : ∀ name ∈ study.grammar.nonterminals.keys,
    ∀ snapshot ∈ study.analysis.history name, snapshot.relations.keys.Nodup

private theorem ruleData_aligned {study : Study} (aligned : Aligned study) {parts : List Json}
    (shown : List.Forall₂ (fun item part => ruleData study.analysis item.1 item.2 = .ok part)
      study.grammar.rules.zipIdx parts) :
    List.Forall₂ (fun number part => part.field? "index" = some (.int (Int.ofNat number)) ∧
      PresentsHistory PresentsRuleRound (study.analysis.rule number).history part)
      (List.range study.grammar.rules.length) parts ∧
    ∀ part ∈ parts, partFits ["index", "symbols", "iterations"]
      study.analysis.stability.roundCount part = .ok true := by
  have length : study.grammar.rules.length = parts.length := by
    rw [← shown.length_eq, List.length_zipIdx]
  have each (number : Nat) (below : number < study.grammar.rules.length)
      (inside : number < parts.length) : _ :=
    shown.get (by simpa using below) inside
  simp only [List.get_eq_getElem, List.getElem_zipIdx, Nat.zero_add] at each
  constructor
  · rw [List.forall₂_iff_get]
    refine ⟨by simp [length], fun number inRange inside => ?_⟩
    have below : number < study.grammar.rules.length := by simpa using inRange
    obtain ⟨index, history, _⟩ :=
      ruleData_spec (aligned.distinctInRules number below) (each number below inside)
    simpa using And.intro index history
  · intro part member
    obtain ⟨number, inside, rfl⟩ := List.mem_iff_getElem.mp member
    have below : number < study.grammar.rules.length := by omega
    obtain ⟨_, _, fits⟩ :=
      ruleData_spec (aligned.distinctInRules number below) (each number below inside)
    rwa [aligned.rules number below] at fits

/-- The data of aligned histories presents all of them and is accepted by the check of its form. -/
theorem data_spec {study : Study} (aligned : Aligned study)
    (written : ∀ rule ∈ study.grammar.rules, ∃ left, rule.left? = some left) :
    ∃ value, data study = .ok value ∧ isValid value = .ok true ∧ PresentsStudy study value := by
  have each : ∀ item ∈ study.grammar.rules.zipIdx, ∃ part,
      ruleData study.analysis item.1 item.2 = .ok part := by
    intro item member
    obtain ⟨left, first⟩ := written item.1 (List.fst_mem_of_mem_zipIdx member)
    exact exists_ruleData study.analysis item.2 first
  obtain ⟨parts, made⟩ := mapM_total each
  obtain ⟨rules, rulesFit⟩ := ruleData_aligned aligned (mapM_success made)
  have nonterminals (entry : String × List Nat) (member : entry ∈ study.grammar.nonterminals.entries) :=
    nonterminalData_spec (aligned.distinctInNonterminals entry.1 (OrderedMap.mem_keys_of_mem member))
  refine ⟨_, by simp only [data, made]; rfl, ?_, ?_, ?_⟩
  · have required {fields : List (String × Json)} (listed : requiredFields ⊆ fields.map Prod.fst) :
        (ofFields fields).isObject && hasFields requiredFields (ofFields fields) := by
      rw [hasFields_ofFields listed]
      rfl
    apply isValid_of (required (by simp [requiredFields])) (by rw [field?_ofFields]; rfl)
      (by rw [field?_ofFields]; rfl) (by rw [field?_ofFields]; rfl) (by rw [field?_ofFields]; rfl)
    · rwa [List.length_map]
    · intro part member
      obtain ⟨entry, registered, rfl⟩ := List.mem_map.mp member
      obtain ⟨_, _, fits⟩ := nonterminals entry registered
      rw [aligned.nonterminals entry.1 (OrderedMap.mem_keys_of_mem registered)] at fits
      rwa [List.length_map]
  · exact ⟨parts, by rw [field?_ofFields]; rfl, rules⟩
  · refine ⟨_, by rw [field?_ofFields]; rfl, ?_⟩
    rw [OrderedMap.keys, List.forall₂_map_left_iff, List.forall₂_map_right_iff, List.forall₂_same]
    intro entry registered
    obtain ⟨name, history, _⟩ := nonterminals entry registered
    exact ⟨name, history⟩

end Report

end AttributeGrammar
