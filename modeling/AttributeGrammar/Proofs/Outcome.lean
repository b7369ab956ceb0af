import AttributeGrammar.Fault
import Mathlib.Data.List.Forall2

/-! Computations that did not meet a fault, taken apart into their steps.
-/
namespace AttributeGrammar

theorem bind_success {Error α β : Type} {first : Except Error α} {next : α → Except Error β}
    {result : β} (ok : first >>= next = .ok result) :
    ∃ value, first = .ok value ∧ next value = .ok result := by
  cases first with
  | error fault => simp [bind, Except.bind] at ok
  | ok value => exact ⟨value, rfl, ok⟩

theorem mapM_success {α β : Type} {step : α → Except Fault β} {items : List α} {results : List β}
    (ok : items.mapM step = .ok results) :
    List.Forall₂ (fun item result => step item = .ok result) items results := by
  induction items generalizing results with
  | nil => exact Except.ok.inj ok ▸ .nil
  | cons item rest ih =>
    rw [List.mapM_cons] at ok
    obtain ⟨first, here, ok⟩ := bind_success ok
    obtain ⟨others, later, ok⟩ := bind_success ok
    exact Except.ok.inj ok ▸ .cons here (ih later)

theorem mapM_total {α β : Type} {step : α → Except Fault β} {items : List α}
    (each : ∀ item ∈ items, ∃ result, step item = .ok result) :
    ∃ results, items.mapM step = .ok results := by
  induction items with
  | nil => exact ⟨[], rfl⟩
  | cons item rest ih =>
    obtain ⟨first, here⟩ := each item List.mem_cons_self
    obtain ⟨others, later⟩ := ih fun other member => each other (List.mem_cons_of_mem _ member)
    exact ⟨first :: others, by rw [List.mapM_cons, here]; simp [later, bind, Except.bind]; rfl⟩

namespace Outcome
variable {State Item : Type}

@[simp] theorem done_andThen (state : State) (next : State → Outcome State) :
    (done state).andThen next = next state := rfl

theorem through_append (step : Item → State → Outcome State) (first later : List Item)
    (state : State) : through step (first ++ later) state =
      (through step first state).andThen (through step later) := by
  induction first generalizing state with
  | nil => rfl
  | cons item rest ih =>
    rw [List.cons_append, through, through]
    cases step item state with
    | done next => exact ih next
    | stopped fault next => rfl

/-- What one item keeps, going through all of them keeps: `P` says how far the items are done. -/
theorem through_done {step : Item → State → Outcome State} (P : List Item → State → Prop)
    (items : List Item) {state : State} (start : P [] state)
    (keeps : ∀ passed item rest, items = passed ++ item :: rest → ∀ state, P passed state →
      ∃ next, step item state = .done next ∧ P (passed ++ [item]) next) :
    ∃ final, through step items state = .done final ∧ P items final := by
  suffices general : ∀ rest passed state, items = passed ++ rest → P passed state →
      ∃ final, through step rest state = .done final ∧ P items final from
    general items [] state rfl start
  intro rest
  induction rest with
  | nil =>
    intro passed state split holds
    rw [List.append_nil] at split
    exact ⟨state, rfl, split ▸ holds⟩
  | cons item rest ih =>
    intro passed state split holds
    obtain ⟨next, stepped, holds⟩ := keeps passed item rest split state holds
    obtain ⟨final, went, finished⟩ := ih (passed ++ [item]) next (by simp [split]) holds
    exact ⟨final, by rw [through, stepped, done_andThen, went], finished⟩

/-- What every item keeps, going through all of them keeps. -/
theorem through_keeps {step : Item → State → Outcome State} {P : State → Prop} {items : List Item}
    (keeps : ∀ item ∈ items, ∀ state next, step item state = .done next → P state → P next)
    {state final : State} (went : through step items state = .done final) (start : P state) :
    P final := by
  induction items generalizing state with
  | nil => exact Outcome.done.inj went ▸ start
  | cons item rest ih =>
    rw [through] at went
    cases stepped : step item state with
    | stopped fault next =>
      rw [stepped] at went
      cases went
    | done next =>
      rw [stepped, done_andThen] at went
      exact ih (fun other member => keeps other (List.mem_cons_of_mem _ member)) went
        (keeps item List.mem_cons_self state next stepped start)

theorem andThen_done {first : Outcome State} {next : State → Outcome State} {final : State}
    (went : first.andThen next = .done final) :
    ∃ middle, first = .done middle ∧ next middle = .done final := by
  cases first with
  | done middle => exact ⟨middle, rfl, went⟩
  | stopped fault middle => cases went

theorem ofFault?_done {fault? : Option Fault} {state final : State}
    (went : ofFault? fault? state = .done final) : state = final := by
  cases fault? with
  | none => exact Outcome.done.inj went
  | some fault => cases went

end Outcome
end AttributeGrammar
