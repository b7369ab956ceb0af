import AttributeGrammar.Proofs.Grammar.Row
import AttributeGrammar.Proofs.Reference
import AttributeGrammar.Proofs.Text

/-! What an equation of a row means.
An equation has one equals sign, to the left of it one reference within the rule, and to the right of
it references within the rule. When the left half is in order, the references of the right half
count up to the first that is not within the rule.
-/
namespace AttributeGrammar

structure Halves (equation left right : List Char) : Prop where
  split : equation = left ++ '=' :: right
  first : '=' ∉ left
  last : '=' ∉ right

/-- The half refers to one attribute, and it is within a rule of so many symbols. -/
def IsTarget (symbolCount : Nat) (half : List Char) (target : Coordinate) : Prop :=
  ∃ before name digits after, ReferenceAt half before name digits after ∧
    decimalValue digits < symbolCount ∧ target = ⟨decimalValue digits, String.ofList name⟩ ∧
    ∀ other word number rest, ReferenceAt half other word number rest → other = before

/-- The half refers to the attribute, and up to there only to attributes within the rule. -/
def IsSource (symbolCount : Nat) (half : List Char) (source : Coordinate) : Prop :=
  ∃ before name digits after, ReferenceAt half before name digits after ∧
    source = ⟨decimalValue digits, String.ofList name⟩ ∧
    ∀ other word number rest, ReferenceAt half other word number rest →
      other.length ≤ before.length → decimalValue number < symbolCount

def Inside (symbolCount : Nat) (half : List Char) : Prop :=
  ∀ before name digits after, ReferenceAt half before name digits after →
    decimalValue digits < symbolCount

def WellFormed (symbolCount : Nat) (equation : List Char) : Prop :=
  ∃ left right, Halves equation left right ∧ (∃ target, IsTarget symbolCount left target) ∧
    Inside symbolCount right

def Configuration.Skips (configuration : Configuration) (equation : List Char) : Prop :=
  Text.isEmpty equation = true ∧ configuration.ignoreBlankEquations = true

/-- Reading the equation comes to a reference with too many digits. -/
def Stumbles (configuration : Configuration) (symbolCount : Nat) (equation : List Char) : Prop :=
  ¬ configuration.Skips equation ∧ ∃ left right, Halves equation left right ∧
    (HasLongReference left ∨
      (∃ target, IsTarget symbolCount left target) ∧ HasLongReference right)

private theorem halves_iff {equation left right : List Char} :
    Halves equation left right ↔ Text.pieces '=' equation = [left, right] := by
  rw [Text.pieces_eq_pair_iff]
  exact ⟨fun halves => ⟨halves.split, halves.first, halves.last⟩,
    fun ⟨split, first, last⟩ => ⟨split, first, last⟩⟩

theorem Halves.unique {equation left right other rest : List Char}
    (halves : Halves equation left right) (others : Halves equation other rest) :
    other = left ∧ rest = right := by
  rw [halves_iff] at halves others
  simpa [halves, eq_comm] using others

private theorem not_skips_of_halves {configuration : Configuration} {equation left right : List Char}
    (halves : Halves equation left right) : ¬ configuration.Skips equation := by
  rintro ⟨blank, _⟩
  have visible : Text.isEmpty equation = false := by
    apply Text.isEmpty_eq_false_iff.mpr
    exact ⟨'=', by rw [halves.split]; simp, by decide⟩
  rw [visible] at blank
  cases blank

namespace Reference
variable {half : List Char} {references : List Reference} {symbolCount : Nat}

private theorem Listed.first_lt (listed : Listed half references) :
    references.Pairwise fun earlier later => earlier.first < later.first := by
  refine listed.ordered.imp_of_mem fun {earlier later} member _ before => ?_
  obtain ⟨_, _, _, _, _, rfl⟩ := (listed.mem_iff earlier).mp member
  simp only [ofParts] at before ⊢
  omega

private theorem isTarget_iff (listed : Listed half references) {target : Coordinate} :
    IsTarget symbolCount half target ↔ ∃ reference, references = [reference] ∧
      reference.symbolIndex < symbolCount ∧ target = ⟨reference.symbolIndex, reference.name⟩ := by
  constructor
  · rintro ⟨before, name, digits, after, stands, inside, rfl, only⟩
    have member := (listed.mem_iff _).mpr ⟨before, name, digits, after, stands, rfl⟩
    refine ⟨ofParts before name digits, ?_, inside, rfl⟩
    have alone : ∀ reference ∈ references, reference.first = before.length := by
      intro reference present
      obtain ⟨other, word, number, rest, further, rfl⟩ := (listed.mem_iff reference).mp present
      rw [only other word number rest further]
      rfl
    match references, member, alone, listed.first_lt with
    | [single], member, _, _ => exact congrArg (· :: []) (List.mem_singleton.mp member).symm
    | first :: second :: rest, _, alone, ordered =>
      have less := List.rel_of_pairwise_cons ordered List.mem_cons_self
      rw [alone first List.mem_cons_self,
        alone second (List.mem_cons_of_mem _ List.mem_cons_self)] at less
      exact absurd less (Nat.lt_irrefl _)
  · rintro ⟨reference, rfl, inside, rfl⟩
    obtain ⟨before, name, digits, after, stands, rfl⟩ :=
      (listed.mem_iff reference).mp List.mem_cons_self
    refine ⟨before, name, digits, after, stands, inside, rfl, ?_⟩
    intro other word number rest further
    have member := (listed.mem_iff _).mpr ⟨other, word, number, rest, further, rfl⟩
    have same : other.length = before.length :=
      congrArg Reference.first (List.mem_singleton.mp member)
    have split : other ++ (word ++ '[' :: number ++ ']' :: rest) =
        before ++ (name ++ '[' :: digits ++ ']' :: after) := by
      simpa using further.split.symm.trans stands.split
    exact (List.append_inj split same).1

private theorem mem_takeWhile_iff {p : Reference → Bool}
    (ordered : references.Pairwise fun earlier later => earlier.first < later.first)
    {reference : Reference} : reference ∈ references.takeWhile p ↔ reference ∈ references ∧
      ∀ other ∈ references, other.first ≤ reference.first → p other = true := by
  induction references with
  | nil => simp
  | cons head rest ih =>
    obtain ⟨less, ordered⟩ := List.pairwise_cons.mp ordered
    rw [List.takeWhile_cons]
    split
    · next passes =>
      rw [List.mem_cons, ih ordered]
      constructor
      · rintro (rfl | ⟨later, all⟩)
        · refine ⟨List.mem_cons_self, fun other member least => ?_⟩
          rcases List.mem_cons.mp member with rfl | behind
          · exact passes
          · exact absurd (less other behind) (Nat.not_lt_of_le least)
        · refine ⟨List.mem_cons_of_mem _ later, fun other member least => ?_⟩
          rcases List.mem_cons.mp member with rfl | behind
          · exact passes
          · exact all other behind least
      · rintro ⟨member, all⟩
        rcases List.mem_cons.mp member with rfl | later
        · exact Or.inl rfl
        · exact Or.inr ⟨later, fun other behind => all other (List.mem_cons_of_mem _ behind)⟩
    · next fails =>
      refine ⟨fun member => (List.not_mem_nil member).elim, fun ⟨member, all⟩ => ?_⟩
      apply absurd (all head List.mem_cons_self _) fails
      rcases List.mem_cons.mp member with rfl | later
      · exact Nat.le_refl _
      · exact Nat.le_of_lt (less reference later)

private theorem isSource_iff (listed : Listed half references) {source : Coordinate} :
    IsSource symbolCount half source ↔
      source ∈ (references.takeWhile fun reference => reference.symbolIndex < symbolCount).map
        fun reference => (⟨reference.symbolIndex, reference.name⟩ : Coordinate) := by
  simp only [List.mem_map, mem_takeWhile_iff listed.first_lt, decide_eq_true_eq]
  constructor
  · rintro ⟨before, name, digits, after, stands, rfl, all⟩
    refine ⟨ofParts before name digits, ⟨?_, fun other member least => ?_⟩, rfl⟩
    · exact (listed.mem_iff _).mpr ⟨before, name, digits, after, stands, rfl⟩
    · obtain ⟨other, word, number, rest, further, rfl⟩ := (listed.mem_iff other).mp member
      exact all other word number rest further least
  · rintro ⟨reference, ⟨member, all⟩, rfl⟩
    obtain ⟨before, name, digits, after, stands, rfl⟩ := (listed.mem_iff reference).mp member
    refine ⟨before, name, digits, after, stands, rfl, fun other word number rest further least => ?_⟩
    exact all _ ((listed.mem_iff _).mpr ⟨other, word, number, rest, further, rfl⟩) least

private theorem inside_iff (listed : Listed half references) : Inside symbolCount half ↔
    ¬ (references.takeWhile fun reference => reference.symbolIndex < symbolCount).length <
      references.length := by
  have all : Inside symbolCount half ↔
      ∀ reference ∈ references, reference.symbolIndex < symbolCount := by
    constructor
    · intro inside reference member
      obtain ⟨before, name, digits, after, stands, rfl⟩ := (listed.mem_iff reference).mp member
      exact inside before name digits after stands
    · intro inside before name digits after stands
      exact inside _ ((listed.mem_iff _).mpr ⟨before, name, digits, after, stands, rfl⟩)
  rw [all, Nat.not_lt]
  constructor
  · intro inside
    rw [List.takeWhile_eq_self_iff.mpr (by simpa using inside)]
  · intro whole reference member
    have same := (List.takeWhile_prefix fun reference : Reference =>
      decide (reference.symbolIndex < symbolCount)).eq_of_length_le whole
    rw [← same] at member
    simpa using List.mem_takeWhile_imp member

end Reference

namespace Equation
variable {configuration : Configuration} {symbolCount : Nat} {whole : List Char}

/-- What reading an equation gives. -/
structure Reads (configuration : Configuration) (symbolCount : Nat) (whole : List Char)
    (equation : Equation) : Prop where
  target : ∀ c, equation.target = some c ↔
    ∃ left right, Halves whole left right ∧ IsTarget symbolCount left c
  sources : ∀ c, c ∈ equation.sources ↔ ∃ left right, Halves whole left right ∧
    (∃ target, IsTarget symbolCount left target) ∧ IsSource symbolCount right c
  problems : equation.problems = [] ↔ configuration.Skips whole ∨ WellFormed symbolCount whole

private theorem reads_of_no_target {equation : Equation} (target : equation.target = none)
    (sources : equation.sources = []) (problems : equation.problems = [] ↔ configuration.Skips whole)
    (malformed : ∀ left right, Halves whole left right → ∀ c, ¬ IsTarget symbolCount left c) :
    Reads configuration symbolCount whole equation := by
  refine ⟨fun c => ?_, fun c => ?_, problems.trans ⟨Or.inl, fun either => either.resolve_right ?_⟩⟩
  · rw [target]
    exact ⟨(fun found => by cases found), fun ⟨left, right, halves, is⟩ =>
      absurd is (malformed left right halves c)⟩
  · rw [sources]
    exact ⟨(fun found => by cases found), fun ⟨left, right, halves, ⟨target, is⟩, _⟩ =>
      absurd is (malformed left right halves target)⟩
  · rintro ⟨left, right, halves, ⟨target, is⟩, _⟩
    exact malformed left right halves target is

private theorem reads_reads {left right : List Char} (halves : Halves whole left right)
    {target : Coordinate} (is : IsTarget symbolCount left target)
    (only : ∀ other, IsTarget symbolCount left other → other = target)
    {references : List Reference} (listed : Reference.Listed right references) :
    Reads configuration symbolCount whole (reads symbolCount whole right target references) := by
  refine ⟨fun c => ?_, fun c => ?_, ?_⟩
  · constructor
    · rintro found
      obtain rfl : target = c := Option.some.inj found
      exact ⟨left, right, halves, is⟩
    · rintro ⟨other, rest, others, found⟩
      obtain ⟨rfl, rfl⟩ := halves.unique others
      exact congrArg some (only c found).symm
  · change c ∈ List.map _ _ ↔ _
    rw [← Reference.isSource_iff listed]
    constructor
    · exact fun source => ⟨left, right, halves, ⟨target, is⟩, source⟩
    · rintro ⟨other, rest, others, _, source⟩
      obtain ⟨rfl, rfl⟩ := halves.unique others
      exact source
  · have problems : (reads symbolCount whole right target references).problems = [] ↔
        Inside symbolCount right := by
      rw [Reference.inside_iff listed]
      simp [reads]
    rw [problems]
    constructor
    · exact fun inside => Or.inr ⟨left, right, halves, ⟨target, is⟩, inside⟩
    · rintro (skips | ⟨other, rest, others, _, inside⟩)
      · exact absurd skips (not_skips_of_halves halves)
      · obtain ⟨rfl, rfl⟩ := halves.unique others
        exact inside

private theorem not_skips_iff : ¬ configuration.Skips whole ↔
    ¬ (Text.isEmpty whole && configuration.ignoreBlankEquations) = true := by
  simp [Configuration.Skips]

private theorem reads_ofProblem (taken : ¬ configuration.Skips whole) {fragment : String}
    {reason : Reason}
    (malformed : ∀ left right, Halves whole left right → ∀ c, ¬ IsTarget symbolCount left c) :
    Reads configuration symbolCount whole (ofProblem fragment reason) :=
  reads_of_no_target rfl rfl (by simp [ofProblem, taken]) malformed

private theorem read_skipped (symbolCount : Nat) (skips : configuration.Skips whole) :
    read configuration symbolCount whole = .ok {} ∧ Reads configuration symbolCount whole {} := by
  constructor
  · rw [read, if_pos]
    simpa [Configuration.Skips] using skips
  · exact reads_of_no_target rfl rfl (by simp [skips])
      fun left right halves => absurd skips (not_skips_of_halves halves)

private theorem read_uncut (symbolCount : Nat) (taken : ¬ configuration.Skips whole)
    (uncut : ∀ left right, ¬ Halves whole left right) :
    ∃ equation, read configuration symbolCount whole = .ok equation ∧
      Reads configuration symbolCount whole equation := by
  have malformed : ∀ left right, Halves whole left right → ∀ c, ¬ IsTarget symbolCount left c :=
    fun left right halves => absurd halves (uncut left right)
  rw [read, if_neg (not_skips_iff.mp taken)]
  split
  · next left right pair => exact absurd (halves_iff.mpr pair) (uncut left right)
  all_goals exact ⟨_, rfl, reads_ofProblem taken malformed⟩

section Cut
variable {left right : List Char}

/-- Once the left half is read, only a reference behind a good target can still be too long. -/
theorem stumbles_iff (halves : Halves whole left right) (short : ¬ HasLongReference left) :
    Stumbles configuration symbolCount whole ↔
      (∃ target, IsTarget symbolCount left target) ∧ HasLongReference right := by
  constructor
  · rintro ⟨_, other, rest, others, long⟩
    obtain ⟨rfl, rfl⟩ := halves.unique others
    exact long.resolve_left short
  · exact fun long => ⟨not_skips_of_halves halves, left, right, halves, Or.inr long⟩

/-- Without a target the right half is not read, whatever is reported of the left one. -/
theorem reads_without_target (halves : Halves whole left right) (short : ¬ HasLongReference left)
    (targetless : ∀ c, ¬ IsTarget symbolCount left c) (fragment : String) (reason : Reason) :
    Reads configuration symbolCount whole (ofProblem fragment reason) ∧
      ¬ Stumbles configuration symbolCount whole := by
  refine ⟨reads_ofProblem (not_skips_of_halves halves) fun other rest others c => ?_, fun long => ?_⟩
  · obtain ⟨rfl, rfl⟩ := halves.unique others
    exact targetless c
  · obtain ⟨⟨target, is⟩, _⟩ := (stumbles_iff halves short).mp long
    exact targetless target is

private theorem isTarget_singleton_iff {reference : Reference}
    (listed : Reference.Listed left [reference]) {c : Coordinate} :
    IsTarget symbolCount left c ↔ reference.symbolIndex < symbolCount ∧
      c = ⟨reference.symbolIndex, reference.name⟩ := by
  rw [Reference.isTarget_iff listed]
  constructor
  · rintro ⟨same, single, inside, rfl⟩
    obtain rfl : reference = same := by simpa using single
    exact ⟨inside, rfl⟩
  · exact fun ⟨inside, same⟩ => ⟨reference, rfl, inside, same⟩

/-- The left half decides whether the right half is read at all. -/
theorem read_halves (halves : Halves whole left right) :
    (∃ equation, read configuration symbolCount whole = .ok equation ∧
      Reads configuration symbolCount whole equation ∧
      ¬ Stumbles configuration symbolCount whole) ∨
    (∃ digits, read configuration symbolCount whole = .error (.numeralTooLong digits)) ∧
      Stumbles configuration symbolCount whole := by
  have taken : ¬ configuration.Skips whole := not_skips_of_halves halves
  rw [read, if_neg (not_skips_iff.mp taken), halves_iff.mp halves]
  dsimp only
  rcases Reference.scan_cases left with ⟨references, scanned, listed, short⟩ | ⟨⟨digits, fault⟩, long⟩
  swap
  · rw [fault]
    exact Or.inr ⟨⟨digits, rfl⟩, taken, left, right, halves, Or.inl long⟩
  rw [scanned]
  match references, listed with
  | [], listed =>
    have targetless (c : Coordinate) : ¬ IsTarget symbolCount left c := by
      simp [Reference.isTarget_iff listed]
    exact Or.inl ⟨_, rfl, reads_without_target halves short targetless _ _⟩
  | first :: second :: rest, listed =>
    have targetless (c : Coordinate) : ¬ IsTarget symbolCount left c := by
      simp [Reference.isTarget_iff listed]
    exact Or.inl ⟨_, rfl, reads_without_target halves short targetless _ _⟩
  | [reference], listed =>
    simp only [bind, Except.bind]
    by_cases inside : reference.symbolIndex < symbolCount
    · have is : IsTarget symbolCount left ⟨reference.symbolIndex, reference.name⟩ :=
        (isTarget_singleton_iff listed).mpr ⟨inside, rfl⟩
      have only (other : Coordinate) (found : IsTarget symbolCount left other) :
          other = ⟨reference.symbolIndex, reference.name⟩ :=
        ((isTarget_singleton_iff listed).mp found).2
      simp only [if_pos inside, stumbles_iff halves short]
      rcases Reference.scan_cases right with
        ⟨references, scanned, listed, short⟩ | ⟨⟨digits, fault⟩, long⟩
      · rw [scanned]
        exact Or.inl ⟨_, rfl, reads_reads halves is only listed, fun both => short both.2⟩
      · rw [fault]
        exact Or.inr ⟨⟨digits, rfl⟩, ⟨_, is⟩, long⟩
    · have targetless (c : Coordinate) : ¬ IsTarget symbolCount left c :=
        fun is => inside ((isTarget_singleton_iff listed).mp is).1
      simp only [if_neg inside]
      exact Or.inl ⟨_, rfl, reads_without_target halves short targetless _ _⟩

end Cut

theorem read_cases (configuration : Configuration) (symbolCount : Nat) (whole : List Char) :
    (∃ equation, read configuration symbolCount whole = .ok equation ∧
      Reads configuration symbolCount whole equation ∧
      ¬ Stumbles configuration symbolCount whole) ∨
    (∃ digits, read configuration symbolCount whole = .error (.numeralTooLong digits)) ∧
      Stumbles configuration symbolCount whole := by
  by_cases skips : configuration.Skips whole
  · obtain ⟨ok, reads⟩ := read_skipped symbolCount skips
    exact Or.inl ⟨{}, ok, reads, fun stumbles => stumbles.1 skips⟩
  by_cases cut : ∃ left right, Halves whole left right
  · obtain ⟨left, right, halves⟩ := cut
    exact read_halves halves
  · have uncut : ∀ left right, ¬ Halves whole left right :=
      fun left right halves => cut ⟨left, right, halves⟩
    obtain ⟨equation, ok, reads⟩ := read_uncut symbolCount skips uncut
    exact Or.inl ⟨equation, ok, reads, fun ⟨_, left, right, halves, _⟩ => uncut left right halves⟩

end Equation
end AttributeGrammar
