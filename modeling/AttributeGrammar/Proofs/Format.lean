import AttributeGrammar.Proofs.Report

/-! What the check of the form of a report decides.
It accepts just the data in which every part is an object with its fields and has as many iterations as
there are marks. It decides nothing when it comes to a value without members where it looks for parts or
counts iterations.
-/
namespace AttributeGrammar

/-- Lists have items, objects keys and texts characters. -/
def Json.IsCollection (value : Json) : Prop :=
  (∃ items, value = .list items) ∨ (∃ fields, value = .object fields) ∨ ∃ points, value = .text points

namespace Report
open Json

def HasFields (names : List String) (value : Json) : Prop :=
  (∃ fields, value = .object fields) ∧ ∀ name ∈ names, ∃ field, value.field? name = some field

/-- The part has the fields and an iteration for each round. -/
def Fits (names : List String) (rounds : Nat) (part : Json) : Prop :=
  HasFields names part ∧ ∃ iterations members, part.field? "iterations" = some iterations ∧
    iterations.members = .ok members ∧ members.length = rounds

/-- The part has the fields, but its iterations have no number. -/
def Uncounted (names : List String) (part : Json) : Prop :=
  HasFields names part ∧ ∃ iterations, part.field? "iterations" = some iterations ∧
    ¬ iterations.IsCollection

/-- What stands under `name` is a collection, and all its members fit. -/
def AllFit (name : String) (names : List String) (rounds : Nat) (value : Json) : Prop :=
  ∃ parts members, value.field? name = some parts ∧ parts.members = .ok members ∧
    ∀ part ∈ members, Fits names rounds part

/-- The members up to one that is not counted fit. -/
def StuckAmong (names : List String) (rounds : Nat) (members : List Json) : Prop :=
  ∃ front part rest, members = front ++ part :: rest ∧ (∀ before ∈ front, Fits names rounds before) ∧
    Uncounted names part

/-- What stands under `name` is no collection, or has a member that is not counted after members that
fit. -/
def StuckAt (name : String) (names : List String) (rounds : Nat) (value : Json) : Prop :=
  ∃ parts, value.field? name = some parts ∧ (¬ parts.IsCollection ∨
    ∃ members, parts.members = .ok members ∧ StuckAmong names rounds members)

/-- An object with all fields, a verdict and a list of marks, one for each round. -/
structure Marked (value : Json) (rounds : Nat) : Prop where
  fields : HasFields requiredFields value
  verdict : ∃ verdict, value.field? "isStronglyAcyclic" = some (.bool verdict)
  marks : ∃ marks, value.field? "isIterationStable" = some (.list marks) ∧ marks.length = rounds

def ruleFields : List String := ["index", "symbols", "iterations"]

def nonterminalFields : List String := ["name", "iterations"]

/-- The data has the form of a report. -/
def HasForm (value : Json) : Prop :=
  ∃ rounds, Marked value rounds ∧ AllFit "productionRules" ruleFields rounds value ∧
    AllFit "nonterminals" nonterminalFields rounds value

/-- The check comes to a value without members. -/
def Stuck (value : Json) : Prop :=
  ∃ rounds, Marked value rounds ∧ (StuckAt "productionRules" ruleFields rounds value ∨
    AllFit "productionRules" ruleFields rounds value ∧
      StuckAt "nonterminals" nonterminalFields rounds value)

/-- What a check decides if it accepts and if it stops under these conditions. -/
inductive Decides (accepts stops : Prop) : Except Fault Bool → Prop
  | accepted (holds : accepts) (goes : ¬ stops) : Decides accepts stops (.ok true)
  | refused (fails : ¬ accepts) (goes : ¬ stops) : Decides accepts stops (.ok false)
  | stopped (halts : stops) (fails : ¬ accepts) : Decides accepts stops (.error .notCollection)

namespace Decides
variable {accepts stops accepts' stops' : Prop} {check later : Except Fault Bool}

theorem congr (decides : Decides accepts stops check) (same : accepts ↔ accepts')
    (alike : stops ↔ stops') : Decides accepts' stops' check := by
  rw [propext same, propext alike] at decides
  exact decides

/-- Of two checks in a row the second runs when the first accepts. -/
theorem andThen (first : Decides accepts stops check) (second : Decides accepts' stops' later) :
    Decides (accepts ∧ accepts') (stops ∨ accepts ∧ stops')
      (do if ← check then later else pure false) := by
  cases first with
  | accepted holds goes =>
    change Decides _ _ later
    exact second.congr (by simp [holds]) (by simp [holds, goes])
  | refused fails goes => exact .refused (fun both => fails both.1) (by simp [fails, goes])
  | stopped halts fails => exact .stopped (Or.inl halts) fun both => fails both.1

private theorem ok_true_iff (decides : Decides accepts stops check) : check = .ok true ↔ accepts := by
  cases decides <;> simp_all

private theorem ok_false_iff (decides : Decides accepts stops check) :
    check = .ok false ↔ ¬ accepts ∧ ¬ stops := by
  cases decides <;> simp_all

private theorem error_iff (decides : Decides accepts stops check) {fault : Fault} :
    check = .error fault ↔ fault = .notCollection ∧ stops := by
  cases decides <;> simp_all [eq_comm]

end Decides

private theorem members_cases (value : Json) :
    (value.IsCollection ∧ ∃ members, value.members = .ok members) ∨
    (¬ value.IsCollection ∧ value.members = .error .notCollection) := by
  cases value <;> simp [IsCollection, members]

private theorem hasFields_iff {names : List String} {value : Json} :
    (value.isObject && hasFields names value) = true ↔ HasFields names value := by
  rw [Bool.and_eq_true, hasFields, List.all_eq_true, HasFields]
  refine and_congr ?_ (forall₂_congr fun name _ => Option.isSome_iff_exists)
  cases value <;> simp [isObject]

private theorem partFits_decides {names : List String} (listed : "iterations" ∈ names) (rounds : Nat)
    (part : Json) : Decides (Fits names rounds part) (Uncounted names part)
      (partFits names rounds part) := by
  by_cases fields : HasFields names part
  · obtain ⟨iterations, found⟩ := fields.2 "iterations" listed
    have counted : partFits names rounds part = iterations.size.map (· == rounds) := by
      rw [partFits, if_pos (hasFields_iff.mpr fields), fieldOf, found, Option.getD_some]
    rw [counted, size]
    rcases members_cases iterations with ⟨collection, members, taken⟩ | ⟨lacks, taken⟩
    · have fits : Fits names rounds part ↔ members.length = rounds := by
        simp [Fits, fields, found, taken]
      have goes : ¬ Uncounted names part := by simp [Uncounted, found, collection]
      rw [taken]
      change Decides _ _ (.ok (members.length == rounds))
      by_cases same : members.length = rounds
      · rw [beq_iff_eq.mpr same]
        exact .accepted (fits.mpr same) goes
      · rw [beq_eq_false_iff_ne.mpr same]
        exact .refused (fun fit => same (fits.mp fit)) goes
    · rw [taken]
      exact .stopped ⟨fields, iterations, found, lacks⟩ (by simp [Fits, found, taken])
  · rw [partFits, if_neg (fun both => fields (hasFields_iff.mp both))]
    exact .refused (fun fits => fields fits.1) fun uncounted => fields uncounted.1

private theorem stuckAmong_cons {names : List String} {rounds : Nat} {part : Json} {rest : List Json} :
    StuckAmong names rounds (part :: rest) ↔
      Uncounted names part ∨ Fits names rounds part ∧ StuckAmong names rounds rest := by
  constructor
  · rintro ⟨front, stuck, others, split, fit, uncounted⟩
    rcases List.cons_eq_append_iff.mp split with ⟨rfl, same⟩ | ⟨later, rfl, rfl⟩
    · obtain ⟨rfl, rfl⟩ := List.cons.inj same
      exact Or.inl uncounted
    · exact Or.inr ⟨fit part List.mem_cons_self, later, stuck, others, rfl,
        fun before member => fit before (List.mem_cons_of_mem _ member), uncounted⟩
  · rintro (uncounted | ⟨fits, front, stuck, others, rfl, fit, uncounted⟩)
    · exact ⟨[], part, rest, rfl, by simp, uncounted⟩
    · exact ⟨part :: front, stuck, others, rfl, List.forall_mem_cons.mpr ⟨fits, fit⟩, uncounted⟩

private theorem partsFit_decides {names : List String} (listed : "iterations" ∈ names) (rounds : Nat)
    (parts : List Json) : Decides (∀ part ∈ parts, Fits names rounds part)
      (StuckAmong names rounds parts) (partsFit names rounds parts) := by
  induction parts with
  | nil => exact .accepted (by simp) (by simp [StuckAmong])
  | cons part rest ih =>
    exact ((partFits_decides listed rounds part).andThen ih).congr List.forall_mem_cons.symm
      stuckAmong_cons.symm

private theorem membersFit_decides {name : String} {names : List String} (listed : "iterations" ∈ names)
    (rounds : Nat) {value : Json} (present : ∃ parts, value.field? name = some parts) :
    Decides (AllFit name names rounds value) (StuckAt name names rounds value)
      (do partsFit names rounds (← (fieldOf name value).members)) := by
  obtain ⟨parts, found⟩ := present
  rw [fieldOf, found, Option.getD_some]
  rcases members_cases parts with ⟨collection, members, taken⟩ | ⟨lacks, taken⟩
  · rw [taken]
    exact (partsFit_decides listed rounds members).congr (by simp [AllFit, found, taken])
      (by simp [StuckAt, found, taken, collection])
  · rw [taken]
    exact .stopped ⟨parts, found, Or.inl lacks⟩ (by simp [AllFit, found, taken])

private theorem isValid_decides (value : Json) :
    Decides (HasForm value) (Stuck value) (isValid value) := by
  have unmarked (never : ∀ rounds, ¬ Marked value rounds) :
      Decides (HasForm value) (Stuck value) (.ok false) :=
    .refused (fun ⟨rounds, marked, _⟩ => never rounds marked) fun ⟨rounds, marked, _⟩ =>
      never rounds marked
  by_cases fields : HasFields requiredFields value
  · obtain ⟨verdict, ofVerdict⟩ := fields.2 "isStronglyAcyclic" (by simp [requiredFields])
    obtain ⟨marks, ofMarks⟩ := fields.2 "isIterationStable" (by simp [requiredFields])
    rw [isValid, if_pos (hasFields_iff.mpr fields), fieldOf, fieldOf, ofVerdict, ofMarks,
      Option.getD_some, Option.getD_some]
    split
    · next accepted marks =>
      have marked (rounds : Nat) : Marked value rounds ↔ marks.length = rounds := by
        constructor
        · rintro ⟨_, _, others, same, length⟩
          obtain rfl : marks = others := by simpa [ofMarks] using same
          exact length
        · exact fun length => ⟨fields, ⟨accepted, ofVerdict⟩, marks, ofMarks, length⟩
      have rules := membersFit_decides (show "iterations" ∈ ruleFields by simp [ruleFields])
        marks.length (fields.2 "productionRules" (by simp [requiredFields]))
      have nonterminals := membersFit_decides
        (show "iterations" ∈ nonterminalFields by simp [nonterminalFields]) marks.length
        (fields.2 "nonterminals" (by simp [requiredFields]))
      exact (rules.andThen nonterminals).congr (by simp [HasForm, marked]) (by simp [Stuck, marked])
    · next other =>
      refine unmarked fun rounds marked => ?_
      obtain ⟨_, ⟨accepted, isBool⟩, items, isList, _⟩ := marked
      rw [ofVerdict, Option.some.injEq] at isBool
      rw [ofMarks, Option.some.injEq] at isList
      exact other accepted items isBool isList
  · rw [isValid, if_neg (fun both => fields (hasFields_iff.mp both))]
    exact unmarked fun rounds marked => fields marked.fields

/-- The check accepts just the data with the form of a report. It meets a fault just when it comes to a
value without members, and refuses all other data. -/
theorem isValid_iff_hasForm (value : Json) : (isValid value = .ok true ↔ HasForm value) ∧
    (isValid value = .ok false ↔ ¬ HasForm value ∧ ¬ Stuck value) ∧
    ∀ fault, isValid value = .error fault ↔ fault = .notCollection ∧ Stuck value := by
  have decides := isValid_decides value
  exact ⟨decides.ok_true_iff, decides.ok_false_iff, fun _ => decides.error_iff⟩

/-- All fields are there, and the rules are nothing. -/
def rulesNull : Json :=
  ofFields [("errors", .list []), ("productionRules", .null), ("nonterminals", .list []),
    ("isStronglyAcyclic", .bool true), ("isIterationStable", .list [])]

theorem not_decided_rulesNull : ¬ ∃ decision, isValid rulesNull = .ok decision := by
  have stopped : isValid rulesNull = .error .notCollection := by rfl
  rw [stopped]
  simp

end Report
end AttributeGrammar
