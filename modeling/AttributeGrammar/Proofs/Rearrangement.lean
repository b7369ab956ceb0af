import AttributeGrammar.Proofs.Analysis.Correspondence
import AttributeGrammar.Proofs.Meaning
import Mathlib

/-! Texts whose rows and equations stand in another order.
A row gives a rule of its own, and its equations declare the same attributes and edges in any order. So
the rules that are drafted from two such texts correspond.
-/
namespace AttributeGrammar
open Text

/-! ### Rows -/

namespace Text

/-- The rows as they are written; in `rows` their gaps are collapsed. -/
def lines (text : List Char) : List (List Char) := (pieces '\n' text).map (dropEnd (· == '\r'))

theorem rows_eq (text : List Char) : rows text = (lines text).map collapse := by
  rw [rows, lines, pieces_collapse rfl, List.map_map, List.map_map]
  refine List.map_congr_left fun line _ => dropEnd_collapseFrom (fun c gap => ?_) false line
  by_contra ends
  obtain rfl : c = '\r' := by simpa using ends
  cases gap

theorem isEmpty_collapse (row : List Char) : isEmpty (collapse row) = isEmpty row :=
  isEmpty_collapseFrom false row

private theorem isEmpty_lines (text : List Char) : (lines text).all isEmpty = isEmpty text := by
  have blank : isBlank '\n' = true := rfl
  rw [lines, List.all_map, ← isEmpty_pieces blank text]
  refine List.all_congr rfl fun line => isEmpty_dropEnd (fun c ends => ?_) line
  rw [eq_of_beq ends]
  rfl

theorem isEmpty_rows (text : List Char) : (rows text).all isEmpty = isEmpty text := by
  rw [rows_eq, List.all_map, ← isEmpty_lines]
  exact List.all_congr rfl isEmpty_collapse

theorem HasEquations.collapse {row equations : List Char} (has : HasEquations row equations) :
    HasEquations (collapse row) (collapse equations) ∧
      rulePart (collapse row) = collapse (rulePart row) := by
  have cut : Text.collapse row = Text.collapse (rulePart row) ++ ':' :: Text.collapse equations := by
    conv_lhs => rw [has.1]
    exact collapseFrom_append rfl _ _ false
  have rule : rulePart (Text.collapse row) = Text.collapse (rulePart row) := by
    rw [cut]
    exact rulePart_append (not_mem_collapse rfl (not_mem_rulePart row)) _
  exact ⟨⟨by rw [rule, ← cut], not_mem_collapse rfl has.2⟩, rule⟩

theorem HasEquations.filled {row equations : List Char} (has : HasEquations row equations) :
    isEmpty row = false :=
  isEmpty_eq_false_iff.mpr ⟨':', by rw [has.1]; simp, rfl⟩

end Text

/-- The rows differ at most in the order of their equations. -/
inductive RowRearranged : List Char → List Char → Prop
  | refl (row : List Char) : RowRearranged row row
  | equations {row other equations others : List Char} (has : HasEquations row equations)
      (hasOther : HasEquations other others) (rule : rulePart row = rulePart other)
      (perm : (equations.splitOn ';').Perm (others.splitOn ';')) : RowRearranged row other

/-- The rows in another order, and in each the equations in any order. -/
def Rearranged (rows others : List (List Char)) : Prop :=
  ∃ permuted, rows.Perm permuted ∧ List.Forall₂ RowRearranged permuted others

namespace RowRearranged
variable {configuration : Configuration} {row other left right : List Char}

theorem symm (rearranged : RowRearranged row other) : RowRearranged other row := by
  cases rearranged with
  | refl => exact .refl row
  | equations has hasOther rule perm => exact .equations hasOther has rule.symm perm.symm

theorem collapse (rearranged : RowRearranged row other) :
    RowRearranged (collapse row) (collapse other) := by
  cases rearranged with
  | refl => exact .refl _
  | equations has hasOther rule perm =>
    refine .equations has.collapse.1 hasOther.collapse.1 ?_ ?_
    · rw [has.collapse.2, hasOther.collapse.2, rule]
    · rw [← pieces_eq_splitOn, ← pieces_eq_splitOn] at perm ⊢
      rw [pieces_collapse rfl, pieces_collapse rfl]
      exact perm.map _

private theorem rulePart_eq (rearranged : RowRearranged row other) : rulePart row = rulePart other := by
  cases rearranged with
  | refl => rfl
  | equations _ _ rule _ => exact rule

theorem isEmpty_eq (rearranged : RowRearranged row other) : isEmpty row = isEmpty other := by
  cases rearranged with
  | refl => rfl
  | equations has hasOther _ _ => rw [has.filled, hasOther.filled]

private theorem keepsRule (rearranged : RowRearranged row other) (keeps : KeepsRule row left right) :
    KeepsRule other left right :=
  ⟨rearranged.rulePart_eq ▸ keeps.arrow, keeps.named, keeps.single, keeps.leftAllowed,
    keeps.rightAllowed⟩

private theorem separators_eq (rearranged : RowRearranged row other) :
    row.count ':' = other.count ':' := by
  cases rearranged with
  | refl => rfl
  | equations has hasOther _ _ => rw [has.count, hasOther.count]

private theorem exists_equation (rearranged : RowRearranged row other) {P : List Char → Prop}
    (stands : ∃ equations, HasEquations row equations ∧
      ∃ equation ∈ equations.splitOn ';', P equation) :
    ∃ equations, HasEquations other equations ∧ ∃ equation ∈ equations.splitOn ';', P equation := by
  cases rearranged with
  | refl => exact stands
  | equations has hasOther _ perm =>
    obtain ⟨found, also, equation, member, holds⟩ := stands
    obtain rfl := has.unique also
    exact ⟨_, hasOther, equation, perm.mem_iff.mp member, holds⟩

private theorem exists_equation_iff (rearranged : RowRearranged row other) {P : List Char → Prop} :
    (∃ equations, HasEquations row equations ∧ ∃ equation ∈ equations.splitOn ';', P equation) ↔
      ∃ equations, HasEquations other equations ∧ ∃ equation ∈ equations.splitOn ';', P equation :=
  ⟨rearranged.exists_equation, rearranged.symm.exists_equation⟩

theorem stumbles (rearranged : RowRearranged row other) (stumbles : RowStumbles configuration row) :
    RowStumbles configuration other := by
  obtain ⟨left, right, keeps, stumbling⟩ := stumbles
  exact ⟨left, right, rearranged.keepsRule keeps, rearranged.exists_equation stumbling⟩

theorem accepted (rearranged : RowRearranged row other) (accepted : Accepted configuration row) :
    Accepted configuration other := by
  obtain ⟨separators, left, right, keeps, fine⟩ := accepted
  refine ⟨rearranged.separators_eq ▸ separators, left, right, rearranged.keepsRule keeps, ?_⟩
  intro equations has equation member
  by_contra wrong
  obtain ⟨former, was, same, present, wrong⟩ := rearranged.symm.exists_equation
    (P := fun equation => ¬ (configuration.Skips equation ∨ WellFormed _ equation))
    ⟨equations, has, equation, member, wrong⟩
  exact wrong (fine former was same present)

private theorem declaresEdge_iff (rearranged : RowRearranged row other) {symbolCount : Nat}
    {edge : Edge} :
    DeclaresEdge symbolCount row edge ↔ DeclaresEdge symbolCount other edge :=
  rearranged.exists_equation_iff

private theorem namesAttribute_iff (rearranged : RowRearranged row other) {symbolCount : Nat}
    {c : Coordinate} : NamesAttribute symbolCount row c ↔ NamesAttribute symbolCount other c := by
  simp only [NamesAttribute, rearranged.declaresEdge_iff, rearranged.exists_equation_iff]

theorem names_rowDraft_eq (rearranged : RowRearranged row other)
    (calm : ¬ RowStumbles configuration row) :
    (Grammar.rowDraft configuration row).symbolNames =
        (Grammar.rowDraft configuration other).symbolNames ∧
      (Grammar.rowDraft configuration row).nonterminalNames =
        (Grammar.rowDraft configuration other).nonterminalNames := by
  by_cases blank : isEmpty row = true
  · have blankOther : isEmpty other = true := rearranged.isEmpty_eq ▸ blank
    rw [Grammar.rowDraft, Grammar.rowDraft, if_pos blank, if_pos blankOther]
    exact ⟨rfl, rfl⟩
  · have filled := Bool.eq_false_iff.mpr blank
    have here := Grammar.names_rowDraft calm filled
    have there := Grammar.names_rowDraft (fun stumbles => calm (rearranged.symm.stumbles stumbles))
      (rearranged.isEmpty_eq ▸ filled)
    rw [here.1, here.2.1, there.1, there.2.1, rearranged.rulePart_eq]
    exact ⟨rfl, rfl⟩

theorem exists_corresponds (rearranged : RowRearranged row other)
    (calm : ¬ RowStumbles configuration row) {rule : Rule}
    (made : (Grammar.rowDraft configuration row).rule = some rule) :
    ∃ counterpart, (Grammar.rowDraft configuration other).rule = some counterpart ∧
      rule.Corresponds counterpart := by
  have calmOther : ¬ RowStumbles configuration other :=
    fun stumbles => calm (rearranged.symm.stumbles stumbles)
  obtain ⟨left, right, keeps⟩ := (Grammar.rule_rowDraft_isSome calm).mp (by rw [made]; rfl)
  have keepsOther := rearranged.keepsRule keeps
  obtain ⟨same, kept, _, declares, _⟩ := Grammar.declares_rowDraft calm keeps
  obtain rfl : rule = same := by simpa [made] using kept
  obtain ⟨counterpart, keptOther, _, declaresOther, _⟩ :=
    Grammar.declares_rowDraft calmOther keepsOther
  have names := (Grammar.names_rowDraft calm keeps.filled.2).2.2 rule made
  have namesOther :=
    (Grammar.names_rowDraft calmOther keepsOther.filled.2).2.2 counterpart keptOther
  refine ⟨counterpart, keptOther, ?_, fun c => ?_, fun edge => ?_⟩
  · rw [names, namesOther, (rearranged.names_rowDraft_eq calm).1]
  · rw [declares.holds, declaresOther.holds, rearranged.namesAttribute_iff]
  · rw [declares.edges, declaresOther.edges, rearranged.declaresEdge_iff]

end RowRearranged

/-! ### All rows -/

namespace Rearranged
variable {configuration : Configuration} {rows others : List (List Char)}

theorem symm (rearranged : Rearranged rows others) : Rearranged others rows := by
  obtain ⟨permuted, perm, related⟩ := rearranged
  have flipped : List.Forall₂ RowRearranged others permuted := related.flip.imp fun _ _ => .symm
  have both : Relation.Comp (List.Forall₂ RowRearranged) List.Perm others rows :=
    ⟨permuted, flipped, perm.symm⟩
  rw [List.forall₂_comp_perm_eq_perm_comp_forall₂] at both
  exact both

theorem collapse (rearranged : Rearranged rows others) :
    Rearranged (rows.map collapse) (others.map collapse) := by
  obtain ⟨permuted, perm, related⟩ := rearranged
  refine ⟨permuted.map Text.collapse, perm.map _, ?_⟩
  exact List.forall₂_map_left_iff.mpr
    (List.forall₂_map_right_iff.mpr (related.imp fun _ _ => .collapse))

theorem counterpart (rearranged : Rearranged rows others) {row : List Char} (member : row ∈ rows) :
    ∃ other ∈ others, RowRearranged row other := by
  obtain ⟨permuted, perm, related⟩ := rearranged
  obtain ⟨place, found⟩ := List.mem_iff_getElem?.mp (perm.mem_iff.mp member)
  obtain ⟨other, there, same⟩ := Sequence.after_of_getElem? related found
  exact ⟨other, List.mem_of_getElem? there, same⟩

theorem exists_iff (rearranged : Rearranged rows others) {P : List Char → Prop}
    (each : ∀ row ∈ rows, ∀ other, RowRearranged row other → (P row ↔ P other)) :
    (∃ row ∈ rows, P row) ↔ ∃ row ∈ others, P row := by
  constructor
  · rintro ⟨row, member, holds⟩
    obtain ⟨other, there, same⟩ := rearranged.counterpart member
    exact ⟨other, there, (each row member other same).mp holds⟩
  · rintro ⟨other, member, holds⟩
    obtain ⟨row, here, same⟩ := rearranged.symm.counterpart member
    exact ⟨row, here, (each row here other same.symm).mpr holds⟩

theorem corresponds (rearranged : Rearranged rows others) {draft otherDraft : Grammar}
    (shows : Grammar.FromRows configuration rows draft)
    (showsOther : Grammar.FromRows configuration others otherDraft) :
    draft.Corresponds otherDraft := by
  have forth {rows others : List (List Char)} {draft otherDraft : Grammar}
      (rearranged : Rearranged rows others) (shows : Grammar.FromRows configuration rows draft)
      (showsOther : Grammar.FromRows configuration others otherDraft) :
      ∀ rule ∈ draft.rules, ∃ counterpart ∈ otherDraft.rules, rule.Corresponds counterpart := by
    intro rule kept
    rw [shows.rules] at kept
    obtain ⟨row, member, made⟩ := List.mem_filterMap.mp kept
    obtain ⟨other, there, same⟩ := rearranged.counterpart member
    obtain ⟨counterpart, madeOther, corresponds⟩ :=
      same.exists_corresponds (shows.calm row member) made
    rw [showsOther.rules]
    exact ⟨counterpart, List.mem_filterMap.mpr ⟨other, there, madeOther⟩, corresponds⟩
  exact ⟨forth rearranged shows showsOther, forth rearranged.symm showsOther shows⟩

end Rearranged
end AttributeGrammar
