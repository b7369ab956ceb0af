import AttributeGrammar.Proofs.Grammar.Declaration
import AttributeGrammar.Proofs.Outcome

/-! What reading a row guarantees of its rule.
The attributes that an equation names lie within the rule, so the rule of every row is sound, and
its left side is among the nonterminals that the row registers.
-/
namespace AttributeGrammar

namespace Equation

private theorem fits_of_no_target (symbolCount : Nat) {equation : Equation}
    (target : equation.target = none)
    (sources : equation.sources = []) : equation.Fits symbolCount :=
  ⟨by simp [target], by simp [sources]⟩

private theorem fits_reads {symbolCount : Nat} (whole right : List Char) {reference : Reference}
    (inside : reference.symbolIndex < symbolCount) (references : List Reference) :
    (reads symbolCount whole right ⟨reference.symbolIndex, reference.name⟩ references).Fits
      symbolCount := by
  constructor
  · intro target same
    cases same
    exact ⟨reference.symbolIndex, inside, rfl⟩
  · intro source member
    obtain ⟨taken, present, rfl⟩ := List.mem_map.mp member
    exact ⟨taken.symbolIndex, by simpa using List.all_eq_true.mp List.all_takeWhile taken present, rfl⟩

theorem fits_read {configuration : Configuration} {symbolCount : Nat} {whole : List Char}
    {equation : Equation} (ok : read configuration symbolCount whole = .ok equation) :
    equation.Fits symbolCount := by
  unfold read at ok
  split at ok
  · exact Except.ok.inj ok ▸ fits_of_no_target symbolCount rfl rfl
  · split at ok
    · obtain ⟨found, _, ok⟩ := bind_success ok
      split at ok
      · exact Except.ok.inj ok ▸ fits_of_no_target symbolCount rfl rfl
      · next reference =>
        split at ok
        · next inside =>
          obtain ⟨references, _, ok⟩ := bind_success ok
          exact Except.ok.inj ok ▸ fits_reads whole _ inside references
        · exact Except.ok.inj ok ▸ fits_of_no_target symbolCount rfl rfl
      · exact Except.ok.inj ok ▸ fits_of_no_target symbolCount rfl rfl
    all_goals exact Except.ok.inj ok ▸ fits_of_no_target symbolCount rfl rfl

end Equation

namespace RowDraft

private theorem fits_readEquations {configuration : Configuration} {symbolCount : Nat}
    {text : Option (List Char)} {equations : List Equation}
    (ok : readEquations configuration symbolCount text = .ok equations) :
    ∀ equation ∈ equations, equation.Fits symbolCount := by
  intro equation member
  cases text with
  | none =>
    cases ok
    cases member
  | some text =>
    obtain ⟨place, found⟩ := List.mem_iff_getElem?.mp member
    obtain ⟨piece, _, read⟩ := Sequence.before_of_getElem? (mapM_success ok) found
    exact Equation.fits_read read

private theorem rule_readRule {configuration : Configuration} {text : List Char}
    {equations : Option (List Char)} {draft : RowDraft} {rule : Rule}
    (ok : readRule configuration text equations = .ok draft) (kept : draft.rule = some rule) :
    rule.Sound ∧ ∃ name ∈ draft.nonterminalNames, rule.left?.map Symbol.name = some name := by
  unfold readRule at ok
  split at ok
  · next leftText rightText _ =>
    cases left : readLeftSide text leftText with
    | error problem =>
      simp only [left, Except.ok.injEq] at ok
      subst draft
      cases kept
    | ok name =>
      cases right : readRightSide rightText with
      | error problem =>
        simp only [left, right, Except.ok.injEq] at ok
        subst draft
        cases kept
      | ok names =>
        simp only [left, right] at ok
        obtain ⟨read, found, ok⟩ := bind_success ok
        obtain rfl := Except.ok.inj ok
        have fits : ∀ equation ∈ read, equation.Fits (name :: names).length := by
          simpa using fits_readEquations found
        obtain ⟨same, declares⟩ := declares_ofEquations fits kept
        refine ⟨declares.sound, name, List.mem_cons_self, ?_⟩
        rw [Rule.left?, ← List.head?_map, same, List.head?_cons]
  · obtain rfl := Except.ok.inj ok
    cases kept

theorem rule_read {configuration : Configuration} {row : List Char} {draft : RowDraft} {rule : Rule}
    (ok : read configuration row = .ok draft) (kept : draft.rule = some rule) :
    rule.Sound ∧ ∃ name ∈ draft.nonterminalNames, rule.left?.map Symbol.name = some name := by
  obtain ⟨plain, found, ok⟩ := bind_success ok
  have same : draft.rule = plain.rule ∧ draft.nonterminalNames = plain.nonterminalNames := by
    split at ok <;> (obtain rfl := Except.ok.inj ok; exact ⟨rfl, rfl⟩)
  rw [same.2]
  exact rule_readRule found (same.1 ▸ kept)

end RowDraft
end AttributeGrammar
