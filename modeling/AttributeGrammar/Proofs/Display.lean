import AttributeGrammar.Report.Display
import AttributeGrammar.Proofs.DependencyGraph
import Mathlib

/-! What is shown of a study whose histories are aligned is shown without fault.
Every rule has a left side and so a text, every nonterminal lists numbers of rules, and there is a
snapshot for each round. A graph is missing only for a rule or a round that is.
-/
namespace AttributeGrammar

namespace Sequence

private theorem exists_item {Item : Type} {items : List Item} {place : Nat}
    (inside : place < items.length) :
    ∃ item, Sequence.item items (place : Int) = .ok item := by
  rw [Sequence.item, item?_ofNat, List.getElem?_eq_getElem inside]
  exact ⟨_, rfl⟩

private theorem exists_place?_iff {length : Nat} {index : Int} :
    (∃ place, place? length index = some place) ↔ -(length : Int) ≤ index ∧ index < length := by
  simp only [place?, Option.ite_none_right_eq_some, exists_and_left, Option.some.injEq, exists_eq',
    and_true]
  split <;> omega

private theorem lt_of_place? {length place : Nat} {index : Int}
    (counted : place? length index = some place) :
    place < length := by
  simp only [place?, Option.ite_none_right_eq_some, Option.some.injEq] at counted
  omega

end Sequence

namespace Report
variable {study : Study}

theorem exists_grammarShown {grammar : Grammar} (ready : grammar.Ready) :
    ∃ shown, grammarShown grammar = .ok shown := by
  have each : ∀ item ∈ grammar.rules.zipIdx, ∃ row, ruleRow grammar item.1 item.2 = .ok row := by
    intro item member
    obtain ⟨written, text⟩ := ready.exists_text (List.fst_mem_of_mem_zipIdx member)
    exact ⟨_, by simp only [ruleRow, text]; rfl⟩
  obtain ⟨rows, made⟩ := mapM_total each
  exact ⟨_, by simp only [grammarShown, rulesTable, made]; rfl⟩

variable {round : Nat}

private theorem exists_roundRow (ready : study.grammar.Ready) (aligned : Aligned study)
    (early : round < study.analysis.stability.roundCount) (nonterminal : String)
    (snapshot : NonterminalRound) (place : Nat) {number : Nat} {rule : Rule}
    (found : study.grammar.rules[number]? = some rule) :
    ∃ row, roundRow study round nonterminal snapshot number place = .ok row := by
  obtain ⟨written, text⟩ := ready.exists_text (List.mem_of_getElem? found)
  have below := (List.getElem?_eq_some_iff.mp found).1
  rw [← aligned.rules number below] at early
  obtain ⟨ruleSnapshot, recorded⟩ := Sequence.exists_item early
  simp [roundRow, found, recorded, text, bind, Except.bind, pure, Except.pure]

private theorem exists_nonterminalRows (ready : study.grammar.Ready) (aligned : Aligned study)
    (early : round < study.analysis.stability.roundCount) {entry : String × List Nat}
    (registered : entry ∈ study.grammar.nonterminals.entries) :
    ∃ rows, nonterminalRows study round entry = .ok rows := by
  have history := early
  rw [← aligned.nonterminals entry.1 (OrderedMap.mem_keys_of_mem registered)] at history
  obtain ⟨snapshot, recorded⟩ := Sequence.exists_item history
  have each : ∀ item ∈ entry.2.zipIdx, ∃ row,
      roundRow study round entry.1 snapshot item.1 item.2 = .ok row := by
    intro item member
    have listed := List.fst_mem_of_mem_zipIdx member
    rw [Analysis.numbers_of_mem ready registered] at listed
    obtain ⟨rule, found, _⟩ := Grammar.mem_numbersOf.mp listed
    exact exists_roundRow ready aligned early entry.1 snapshot item.2 found
  obtain ⟨rows, made⟩ := mapM_total each
  exact ⟨rows, by simp only [nonterminalRows, recorded]; exact made⟩

private theorem exists_roundShown (ready : study.grammar.Ready) (aligned : Aligned study)
    (early : round < study.analysis.stability.roundCount) :
    ∃ shown, roundShown study round = .ok shown := by
  obtain ⟨mark, marked⟩ := Sequence.exists_item early
  have unstable : study.analysis.stability.isUnstable round = .ok !mark := by
    rw [Stability.isUnstable, marked]
    rfl
  obtain ⟨rows, made⟩ := mapM_total fun entry registered =>
    exists_nonterminalRows ready aligned early registered
  exact ⟨_, by simp only [roundShown, unstable, made]; rfl⟩

private theorem roundsShown_done {rounds : List Nat}
    (each : ∀ round ∈ rounds, ∃ shown, roundShown study round = .ok shown) :
    (roundsShown study rounds).2 = none := by
  induction rounds with
  | nil => rfl
  | cons round rest ih =>
    obtain ⟨shown, here⟩ := each round List.mem_cons_self
    simp only [roundsShown, here]
    exact ih fun other member => each other (List.mem_cons_of_mem _ member)

theorem allRoundsShown_done (ready : study.grammar.Ready) (aligned : Aligned study) :
    (allRoundsShown study).2 = none :=
  roundsShown_done fun _ member => exists_roundShown ready aligned (List.mem_range.mp member)

theorem exists_exported (ready : study.grammar.Ready) (aligned : Aligned study)
    (indent : Option Nat) : ∃ text, exported indent study = .ok text := by
  obtain ⟨value, made, _⟩ := data_spec aligned fun _ kept => ready.exists_left kept
  exact ⟨_, by rw [exported, made]; rfl⟩

end Report

namespace Study
variable {study : Study}

/-- There is such a rule, which may be counted from the end, and such a round, which may not. -/
def HasGraph (study : Study) (rule : Int) (round? : Option Int) : Prop :=
  (-(study.grammar.rules.length : Int) ≤ rule ∧ rule < study.grammar.rules.length) ∧
    ∀ round ∈ round?, 0 ≤ round ∧ round < study.analysis.stability.roundCount

private theorem exists_snapshot?_iff (aligned : Report.Aligned study) {place : Nat}
    (below : place < study.grammar.rules.length) (rule : Int) (round? : Option Int) :
    (∃ snapshot, study.snapshot? place rule round? = .ok snapshot) ↔
      ∀ round ∈ round?, 0 ≤ round ∧ round < study.analysis.stability.roundCount := by
  cases round? with
  | none => simp [snapshot?]
  | some round =>
    simp only [Option.mem_some_iff, forall_eq', ← aligned.rules place below]
    by_cases negative : round < 0
    · have before : ¬ 0 ≤ round := by omega
      simp [snapshot?, negative, before]
    · obtain ⟨played, rfl⟩ := Int.eq_ofNat_of_zero_le (Int.not_lt.mp negative)
      simp only [snapshot?, if_neg negative, Int.toNat_natCast, Int.natCast_nonneg, true_and,
        Int.ofNat_lt]
      cases found : (study.analysis.rule place).history[played]? with
      | none => simpa using List.getElem?_eq_none_iff.mp found
      | some snapshot => simpa using (List.getElem?_eq_some_iff.mp found).1

/-- A graph is made just of a rule and a round that there are. -/
theorem exists_dependencyGraph_iff (ready : study.grammar.Ready) (aligned : Report.Aligned study)
    (rule : Int) (round? : Option Int) :
    (∃ graph, study.dependencyGraph rule round? = .ok graph) ↔ study.HasGraph rule round? := by
  rw [HasGraph, ← Sequence.exists_place?_iff]
  unfold dependencyGraph
  cases counted : Sequence.place? study.grammar.rules.length rule with
  | none => simp
  | some place =>
    have below := Sequence.lt_of_place? counted
    have found := List.getElem?_eq_getElem below
    obtain ⟨written, text⟩ := ready.exists_text (List.getElem_mem below)
    rw [← exists_snapshot?_iff aligned below rule round?]
    cases taken : study.snapshot? place rule round? <;>
      simp [found, taken, text, bind, Except.bind, pure, Except.pure]

end Study
end AttributeGrammar
