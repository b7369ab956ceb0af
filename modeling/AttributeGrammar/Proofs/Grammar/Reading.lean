import AttributeGrammar.Proofs.Grammar.Draft
import AttributeGrammar.Proofs.Grammar.Equation

/-! What the rows of a text mean.
A row keeps its rule when the part before its first colon has one arrow between two sides that are in
order, whatever else the row contains; its equations are read when there is just one colon. A row
adds an error exactly when it is not in the documented format.
-/
namespace AttributeGrammar
open Text

/-- The row has a rule with these two sides: one word on the left, and only allowed characters. -/
structure KeepsRule (row left right : List Char) : Prop where
  arrow : OneArrow (rulePart row) left right
  named : isEmpty left = false
  single : ' ' ∉ strip left
  leftAllowed : Allowed (strip left)
  rightAllowed : Allowed right

def wordCount (right : List Char) : Nat :=
  if isEmpty right then 0 else (strip right).count ' ' + 1

/-- The row is in the documented format. -/
structure Accepted (configuration : Configuration) (row : List Char) : Prop where
  separators : row.count ':' ≤ 1
  rule : ∃ left right, KeepsRule row left right ∧
    ∀ equations, HasEquations row equations → ∀ equation ∈ equations.splitOn ';',
      configuration.Skips equation ∨ WellFormed (wordCount right + 1) equation

def RowStumbles (configuration : Configuration) (row : List Char) : Prop :=
  ∃ left right, KeepsRule row left right ∧ ∃ equations, HasEquations row equations ∧
    ∃ equation ∈ equations.splitOn ';', Stumbles configuration (wordCount right + 1) equation

theorem KeepsRule.unique {row left right other rest : List Char} (keeps : KeepsRule row left right)
    (others : KeepsRule row other rest) : other = left ∧ rest = right := by
  have pair := arrowPieces_eq_pair_iff.mpr keeps.arrow
  rw [arrowPieces_eq_pair_iff.mpr others.arrow] at pair
  simpa using pair

theorem KeepsRule.filled {row left right : List Char} (keeps : KeepsRule row left right) :
    '-' ∈ row ∧ isEmpty row = false :=
  keeps.arrow.filled

/-! ### The two sides -/

theorem readLeftSide_eq_ok_iff {rule left : List Char} {name : String} :
    readLeftSide rule left = .ok name ↔ isEmpty left = false ∧ ' ' ∉ strip left ∧
      Allowed (strip left) ∧ name = String.ofList (strip left) := by
  unfold readLeftSide
  by_cases several : ' ' ∈ strip left
  · have failing : ∀ first others, words left = first :: others → others ≠ [] := by
      rintro first _ parts rfl
      exact (pieces_eq_singleton_iff.mp parts).1 several
    split
    · next empty => exact absurd empty (pieces_ne_nil _ _)
    · next first others parts =>
      have more : others.isEmpty = false := by
        simpa using failing first others parts
      constructor
      · intro ok
        split at ok
        · cases ok
        · split at ok
          · cases ok
          · rw [more] at ok
            cases ok
      · exact fun conditions => absurd several conditions.2.1
  · have single : words left = [strip left] := pieces_of_not_mem several
    rw [single]
    simp only [isEmpty_strip, List.isEmpty_nil, if_true]
    by_cases blank : isEmpty left = true
    · simp [blank]
    · rw [if_neg blank]
      have filled := Bool.eq_false_iff.mpr blank
      by_cases allowed : Allowed (strip left)
      · rw [if_neg (by simp [containsAny_eq_false_iff.mpr allowed])]
        simp [filled, several, allowed, eq_comm]
      · have forbidden : containsAny forbiddenParts (strip left) = true := by
          by_contra found
          exact allowed (containsAny_eq_false_iff.mp (Bool.eq_false_iff.mpr found))
        simp [forbidden, allowed]

private theorem readRightSide_cases (right : List Char) :
    (∃ names, readRightSide right = .ok names ∧ Allowed right ∧ names.length = wordCount right) ∨
      (∃ problem, readRightSide right = .error problem) ∧ ¬ Allowed right := by
  unfold readRightSide wordCount
  by_cases blank : isEmpty right = true
  · rw [if_pos blank]
    refine Or.inl ⟨[], rfl, allowed_strip.mp ?_, by rw [if_pos blank]; rfl⟩
    rw [strip_eq_nil_iff.mpr blank]
    exact fun c member => absurd member List.not_mem_nil
  · rw [if_neg blank, if_neg blank]
    by_cases allowed : Allowed right
    · rw [if_neg (by simp [containsAny_eq_false_iff.mpr allowed])]
      exact Or.inl ⟨_, rfl, allowed, by rw [List.length_map, words, length_pieces]⟩
    · have forbidden : containsAny forbiddenParts right = true := by
        by_contra found
        exact allowed (containsAny_eq_false_iff.mp (Bool.eq_false_iff.mpr found))
      rw [if_pos forbidden]
      exact Or.inr ⟨⟨_, rfl⟩, allowed⟩

/-! ### A row -/

private theorem mapM_cases {α β : Type} {step : α → Except Fault β} {R : α → β → Prop} {S : α → Prop}
    {items : List α} (each : ∀ item ∈ items, (∃ result, step item = .ok result ∧ R item result ∧
      ¬ S item) ∨ (∃ digits, step item = .error (.numeralTooLong digits)) ∧ S item) :
    (∃ results, items.mapM step = .ok results ∧ List.Forall₂ R items results ∧
      ∀ item ∈ items, ¬ S item) ∨
    (∃ digits, items.mapM step = .error (.numeralTooLong digits)) ∧ ∃ item ∈ items, S item := by
  induction items with
  | nil => exact Or.inl ⟨[], rfl, .nil, by simp⟩
  | cons item rest ih =>
    rw [List.mapM_cons]
    rcases each item List.mem_cons_self with ⟨result, ok, related, calm⟩ | ⟨⟨digits, fault⟩, stumbles⟩
    · rw [ok]
      rcases ih fun other member => each other (List.mem_cons_of_mem _ member) with
        ⟨results, went, all, quiet⟩ | ⟨⟨digits, fault⟩, other, member, stumbles⟩
      · rw [went]
        refine Or.inl ⟨result :: results, rfl, .cons related all, fun other member => ?_⟩
        rcases List.mem_cons.mp member with rfl | later
        · exact calm
        · exact quiet other later
      · rw [fault]
        exact Or.inr ⟨⟨digits, rfl⟩, other, List.mem_cons_of_mem _ member, stumbles⟩
    · rw [fault]
      exact Or.inr ⟨⟨digits, rfl⟩, item, List.mem_cons_self, stumbles⟩

/-- The equations that are read of a row, with a rule of so many symbols. -/
inductive EquationsOf (configuration : Configuration) (symbolCount : Nat) (row : List Char) :
    List Equation → Prop
  | none (absent : ∀ text, ¬ HasEquations row text) :
    EquationsOf configuration symbolCount row []
  | some {text : List Char} {equations : List Equation} (has : HasEquations row text)
      (read : List.Forall₂ (Equation.Reads configuration symbolCount) (text.splitOn ';') equations) :
    EquationsOf configuration symbolCount row equations

private theorem EquationsOf.problems_eq_nil_iff {configuration : Configuration} {symbolCount : Nat}
    {row : List Char} {equations : List Equation}
    (read : EquationsOf configuration symbolCount row equations) :
    equations.flatMap Equation.problems = [] ↔
      ∀ text, HasEquations row text → ∀ equation ∈ text.splitOn ';',
        configuration.Skips equation ∨ WellFormed symbolCount equation := by
  rw [List.flatMap_eq_nil_iff]
  cases read with
  | none absent => simp [absent]
  | some has read =>
    have same := Sequence.forall_iff_of_forall₂
      (read.imp fun equation result (reads : Equation.Reads _ _ _ _) => reads.problems.symm)
    rw [← same]
    exact ⟨fun fine other also => has.unique also ▸ fine, fun fine => fine _ has⟩

/-- The row keeps a rule whose equations are all in order. -/
def RuleInOrder (configuration : Configuration) (row : List Char) : Prop :=
  ∃ left right, KeepsRule row left right ∧
    ∀ equations, HasEquations row equations → ∀ equation ∈ equations.splitOn ';',
      configuration.Skips equation ∨ WellFormed (wordCount right + 1) equation

namespace RowDraft
variable {configuration : Configuration} {row : List Char}

/-- The draft has the rule that the row keeps, with what its equations declare, or none. -/
structure Keeps (configuration : Configuration) (row : List Char) (draft : RowDraft) : Prop where
  kept : ∀ left right, KeepsRule row left right → ∃ names equations,
    names.length = wordCount right + 1 ∧
      EquationsOf configuration (wordCount right + 1) row equations ∧
      draft.rule = (ofEquations names equations).rule ∧
      draft.attributeNames = (ofEquations names equations).attributeNames
  dropped : (∀ left right, ¬ KeepsRule row left right) →
    draft.rule = none ∧ draft.attributeNames = []

structure Reads (configuration : Configuration) (row : List Char) (draft : RowDraft) : Prop
    extends Keeps configuration row draft where
  problems : draft.problems = [] ↔ Accepted configuration row

private theorem readEquations_cases (configuration : Configuration) (symbolCount : Nat)
    (row : List Char) :
    (∃ equations, readEquations configuration symbolCount (rowParts row).equations = .ok equations ∧
      EquationsOf configuration symbolCount row equations ∧
      ∀ text, HasEquations row text → ∀ equation ∈ text.splitOn ';',
        ¬ Stumbles configuration symbolCount equation) ∨
    (∃ digits, readEquations configuration symbolCount (rowParts row).equations =
      .error (.numeralTooLong digits)) ∧ ∃ text, HasEquations row text ∧
        ∃ equation ∈ text.splitOn ';', Stumbles configuration symbolCount equation := by
  rcases rowParts_cases row with ⟨uncut, parts⟩ | ⟨text, _, has, parts⟩ | ⟨several, parts⟩
  · have absent : ∀ text, ¬ HasEquations row text := fun text has => by
      rw [has.count] at uncut
      cases uncut
    rw [parts]
    exact Or.inl ⟨[], rfl, .none absent, fun text has => absurd has (absent text)⟩
  · rw [parts]
    have cut : readEquations configuration symbolCount (some text) =
        (text.splitOn ';').mapM (Equation.read configuration symbolCount) := by
      rw [readEquations, pieces_eq_splitOn]
    rw [cut]
    rcases mapM_cases fun item (_ : item ∈ text.splitOn ';') =>
        Equation.read_cases configuration symbolCount item with
      ⟨equations, went, read, calm⟩ | ⟨fault, equation, member, stumbles⟩
    · refine Or.inl ⟨equations, went, .some has read, fun other also => ?_⟩
      obtain rfl := has.unique also
      exact calm
    · exact Or.inr ⟨fault, text, has, equation, member, stumbles⟩
  · have absent : ∀ text, ¬ HasEquations row text := fun text has => by
      rw [has.count] at several
      omega
    rw [parts]
    exact Or.inl ⟨[], rfl, .none absent, fun text has => absurd has (absent text)⟩

private theorem rule_rowParts (row : List Char) : (rowParts row).rule = rulePart row := by
  rcases rowParts_cases row with ⟨_, parts⟩ | ⟨_, _, _, parts⟩ | ⟨_, parts⟩ <;> rw [parts]

/-- Where both sides are in order, the equations of the row decide. -/
theorem readRule_kept {left right : List Char} (keeps : KeepsRule row left right) :
    (∃ draft, readRule configuration (rowParts row).rule (rowParts row).equations = .ok draft ∧
      Keeps configuration row draft ∧ (draft.problems = [] ↔ RuleInOrder configuration row) ∧
      ¬ RowStumbles configuration row) ∨
    (∃ digits, readRule configuration (rowParts row).rule (rowParts row).equations =
      .error (.numeralTooLong digits)) ∧ RowStumbles configuration row := by
  have pair := arrowPieces_eq_pair_iff.mpr keeps.arrow
  have leftSide : readLeftSide (rulePart row) left = .ok (String.ofList (strip left)) :=
    readLeftSide_eq_ok_iff.mpr ⟨keeps.named, keeps.single, keeps.leftAllowed, rfl⟩
  rcases readRightSide_cases right with ⟨names, rightSide, _, count⟩ | ⟨_, forbidden⟩
  swap
  · exact absurd keeps.rightAllowed forbidden
  simp only [readRule, rule_rowParts, pair, leftSide, rightSide, count, bind, Except.bind]
  rcases readEquations_cases configuration (wordCount right + 1) row with
    ⟨equations, read, all, calm⟩ | ⟨⟨digits, fault⟩, text, has, stumbles⟩
  · rw [read]
    refine Or.inl ⟨_, rfl, ⟨fun other rest others => ?_,
      fun keepsNone => absurd keeps (keepsNone left right)⟩,
      ?_, ?_⟩
    · obtain ⟨rfl, rfl⟩ := keeps.unique others
      exact ⟨String.ofList (strip other) :: names, equations, by simp [count], all, rfl, rfl⟩
    · have problems : ((ofSides (.ok (String.ofList (strip left))) (.ok names)).withEquations
          (ofEquations (String.ofList (strip left) :: names) equations)).problems =
            equations.flatMap Equation.problems := rfl
      change ((ofSides _ _).withEquations _).problems = [] ↔ _
      rw [problems, all.problems_eq_nil_iff]
      constructor
      · exact fun fine => ⟨left, right, keeps, fine⟩
      · rintro ⟨other, rest, others, fine⟩
        obtain ⟨rfl, rfl⟩ := keeps.unique others
        exact fine
    · rintro ⟨other, rest, others, text, has, equation, member, stumbles⟩
      obtain ⟨rfl, rfl⟩ := keeps.unique others
      exact calm text has equation member stumbles
  · rw [fault]
    exact Or.inr ⟨⟨digits, rfl⟩, left, right, keeps, text, has, stumbles⟩

/-- Otherwise the rule is given up with a problem, and its equations are not looked at. -/
theorem readRule_dropped (configuration : Configuration)
    (drops : ∀ left right, ¬ KeepsRule row left right) :
    ∃ draft, readRule configuration (rowParts row).rule (rowParts row).equations = .ok draft ∧
      draft.rule = none ∧ draft.attributeNames = [] ∧ draft.problems ≠ [] := by
  rw [rule_rowParts, readRule]
  split
  · next left right pair =>
    dsimp only
    cases leftSide : readLeftSide (rulePart row) left with
    | error problem => exact ⟨_, rfl, rfl, rfl, by simp [ofSides]⟩
    | ok name =>
      rcases readRightSide_cases right with ⟨names, rightSide, allowed, _⟩ | ⟨⟨problem, rightSide⟩, _⟩
      · obtain ⟨named, single, leftAllowed, _⟩ := readLeftSide_eq_ok_iff.mp leftSide
        exact absurd ⟨arrowPieces_eq_pair_iff.mp pair, named, single, leftAllowed, allowed⟩
          (drops left right)
      · rw [rightSide]
        exact ⟨_, rfl, rfl, rfl, by simp [ofSides]⟩
  · exact ⟨_, rfl, rfl, rfl, by simp⟩

private theorem readRule_cases (configuration : Configuration) (row : List Char) :
    (∃ draft, readRule configuration (rowParts row).rule (rowParts row).equations = .ok draft ∧
      Keeps configuration row draft ∧ (draft.problems = [] ↔ RuleInOrder configuration row) ∧
      ¬ RowStumbles configuration row) ∨
    (∃ digits, readRule configuration (rowParts row).rule (rowParts row).equations =
      .error (.numeralTooLong digits)) ∧ RowStumbles configuration row := by
  by_cases keeps : ∃ left right, KeepsRule row left right
  · obtain ⟨left, right, keeps⟩ := keeps
    exact readRule_kept keeps
  · have drops : ∀ left right, ¬ KeepsRule row left right :=
      fun left right kept => keeps ⟨left, right, kept⟩
    obtain ⟨draft, read, rule, names, problems⟩ := readRule_dropped configuration drops
    refine Or.inl ⟨draft, read, ⟨fun left right kept => absurd kept (drops left right),
      fun _ => ⟨rule, names⟩⟩, ⟨fun clean => absurd clean problems, ?_⟩, ?_⟩
    · exact fun ⟨left, right, kept, _⟩ => absurd kept (drops left right)
    · exact fun ⟨left, right, kept, _⟩ => drops left right kept

theorem read_cases (configuration : Configuration) (row : List Char) :
    (∃ draft, read configuration row = .ok draft ∧ Reads configuration row draft ∧
      ¬ RowStumbles configuration row) ∨
    (∃ digits, read configuration row = .error (.numeralTooLong digits)) ∧
      RowStumbles configuration row := by
  have several : (rowParts row).severalSeparators = true ↔ ¬ row.count ':' ≤ 1 := by
    rcases rowParts_cases row with ⟨count, parts⟩ | ⟨_, count, _, parts⟩ | ⟨count, parts⟩ <;>
      rw [parts] <;> simp <;> omega
  simp only [read, bind, Except.bind]
  rcases readRule_cases configuration row with
    ⟨draft, plain, keeps, problems, calm⟩ | ⟨⟨digits, fault⟩, stumbles⟩
  · rw [plain]
    have accepted : Accepted configuration row ↔ row.count ':' ≤ 1 ∧ draft.problems = [] := by
      rw [problems]
      exact ⟨fun accepted => ⟨accepted.separators, accepted.rule⟩, fun ⟨few, rule⟩ => ⟨few, rule⟩⟩
    dsimp only
    split
    · next more =>
      refine Or.inl ⟨_, rfl, ⟨⟨keeps.kept, keeps.dropped⟩, ?_⟩, calm⟩
      have many := several.mp more
      simp [accepted, many]
    · next few =>
      refine Or.inl ⟨_, rfl, ⟨keeps, ?_⟩, calm⟩
      have one : row.count ':' ≤ 1 := by
        by_contra many
        exact few (several.mpr many)
      simp [accepted, one]
  · rw [fault]
    exact Or.inr ⟨⟨digits, rfl⟩, stumbles⟩

/-- The names that the two sides of a rule contribute, whatever its equations. -/
def sides (rule : List Char) : RowDraft :=
  match arrowPieces rule with
  | [left, right] => ofSides (readLeftSide rule left) (readRightSide right)
  | _ => {}

private theorem names_readRule {rule : List Char} {equations : Option (List Char)} {draft : RowDraft}
    (ok : readRule configuration rule equations = .ok draft) :
    draft.symbolNames = (sides rule).symbolNames ∧
      draft.nonterminalNames = (sides rule).nonterminalNames ∧
      ∀ kept, draft.rule = some kept → kept.symbolNames = draft.symbolNames := by
  unfold readRule at ok
  split at ok
  · next leftText rightText pair =>
    have sides_eq : sides rule = ofSides (readLeftSide rule leftText) (readRightSide rightText) := by
      rw [sides, pair]
    rw [sides_eq]
    dsimp only at ok
    split at ok
    · next name names left right =>
      obtain ⟨read, _, ok⟩ := bind_success ok
      obtain rfl := Except.ok.inj ok
      rw [left, right]
      refine ⟨rfl, rfl, fun kept rule => ?_⟩
      obtain rfl := Option.some.inj rule
      have bare : (name :: names).map (fun name => (⟨name, ∅⟩ : Symbol).name) = name :: names :=
        List.map_id _
      exact (Equation.map_name_foldl_declareIn read _).trans ((List.map_map ..).trans bare)
    · obtain rfl := Except.ok.inj ok
      exact ⟨rfl, rfl, fun kept rule => by cases rule⟩
  · next several =>
    have sides_eq : sides rule = {} := by
      unfold sides
      split
      · next left right pair => exact absurd pair (several left right)
      · rfl
    obtain rfl := Except.ok.inj ok
    rw [sides_eq]
    exact ⟨rfl, rfl, fun kept rule => by cases rule⟩

private theorem names_read {draft : RowDraft} (ok : read configuration row = .ok draft) :
    draft.symbolNames = (sides (rulePart row)).symbolNames ∧
      draft.nonterminalNames = (sides (rulePart row)).nonterminalNames ∧
      ∀ kept, draft.rule = some kept → kept.symbolNames = draft.symbolNames := by
  obtain ⟨plain, found, ok⟩ := bind_success ok
  have names := names_readRule found
  rw [rule_rowParts] at names
  split at ok
  all_goals
    obtain rfl := Except.ok.inj ok
    exact names

end RowDraft

/-! ### All rows -/

namespace Grammar
variable {configuration : Configuration}

/-- What a row adds to a grammar; a blank one adds nothing. -/
def rowDraft (configuration : Configuration) (row : List Char) : RowDraft :=
  if isEmpty row then {} else (RowDraft.read configuration row).toOption.getD {}

theorem rowDraft_cases {row : List Char} (calm : ¬ RowStumbles configuration row) :
    (isEmpty row = true ∧ rowDraft configuration row = {}) ∨
      (isEmpty row = false ∧ RowDraft.Reads configuration row (rowDraft configuration row)) := by
  unfold rowDraft
  by_cases blank : isEmpty row = true
  · exact Or.inl ⟨blank, if_pos blank⟩
  · rw [if_neg blank]
    rcases RowDraft.read_cases configuration row with ⟨draft, read, reads, _⟩ | ⟨_, stumbles⟩
    · rw [read]
      exact Or.inr ⟨Bool.eq_false_iff.mpr blank, reads⟩
    · exact absurd stumbles calm

theorem rule_rowDraft_isSome {row : List Char} (calm : ¬ RowStumbles configuration row) :
    (rowDraft configuration row).rule.isSome = true ↔ ∃ left right, KeepsRule row left right := by
  rcases rowDraft_cases calm with ⟨blank, nothing⟩ | ⟨_, reads⟩
  · rw [nothing]
    refine ⟨(fun read => by cases read), fun ⟨left, right, keeps⟩ => ?_⟩
    rw [keeps.filled.2] at blank
    cases blank
  · by_cases keeps : ∃ left right, KeepsRule row left right
    · obtain ⟨left, right, keeps⟩ := keeps
      obtain ⟨names, equations, _, _, rule, _⟩ := reads.kept left right keeps
      exact ⟨fun _ => ⟨left, right, keeps⟩, fun _ => by rw [rule]; rfl⟩
    · rw [(reads.dropped fun left right kept => keeps ⟨left, right, kept⟩).1]
      exact ⟨(fun read => by cases read), fun kept => absurd kept keeps⟩

theorem names_rowDraft {row : List Char} (calm : ¬ RowStumbles configuration row)
    (filled : isEmpty row = false) :
    (rowDraft configuration row).symbolNames = (RowDraft.sides (rulePart row)).symbolNames ∧
      (rowDraft configuration row).nonterminalNames =
        (RowDraft.sides (rulePart row)).nonterminalNames ∧
      ∀ kept, (rowDraft configuration row).rule = some kept →
        kept.symbolNames = (rowDraft configuration row).symbolNames := by
  rcases RowDraft.read_cases configuration row with ⟨draft, read, _⟩ | ⟨_, stumbles⟩
  · have same : rowDraft configuration row = draft := by
      rw [rowDraft, filled, read]
      rfl
    rw [same]
    exact RowDraft.names_read read
  · exact absurd stumbles calm

private theorem problems_rowDraft {row : List Char} (calm : ¬ RowStumbles configuration row) :
    (rowDraft configuration row).problems = [] ↔
      isEmpty row = true ∨ Accepted configuration row := by
  rcases rowDraft_cases calm with ⟨blank, nothing⟩ | ⟨filled, reads⟩
  · rw [nothing]
    exact ⟨fun _ => Or.inl blank, fun _ => rfl⟩
  · rw [reads.problems, filled]
    simp

@[simp] theorem rules_addRow (line : Nat) (draft : RowDraft) (grammar : Grammar) :
    (grammar.addRow line draft).rules = grammar.rules ++ draft.rule.toList := by
  cases kept : draft.rule with
  | none => simp [addRow, kept]
  | some rule => simp [addRow, kept, addRule]

@[simp] theorem errors_addRow (line : Nat) (draft : RowDraft) (grammar : Grammar) :
    (grammar.addRow line draft).errors = grammar.errors ++ draft.problems.map (.inLine line) := rfl

private theorem mem_attributeNames_addRow {line : Nat} {draft : RowDraft} {grammar : Grammar}
    {name : String} : name ∈ (grammar.addRow line draft).attributeNames ↔
      name ∈ draft.attributeNames ∨ name ∈ grammar.attributeNames :=
  mem_addNames

/-- A blank row is read like a row with nothing in it. -/
theorem addRows_cons (configuration : Configuration) (line : Nat) (row : List Char)
    (rest : List (List Char)) (grammar : Grammar) :
    (¬ RowStumbles configuration row ∧ addRows configuration line (row :: rest) grammar =
      addRows configuration (line + 1) rest (grammar.addRow line (rowDraft configuration row))) ∨
    (∃ digits, addRows configuration line (row :: rest) grammar = .error (.numeralTooLong digits)) ∧
      RowStumbles configuration row := by
  by_cases blank : isEmpty row = true
  · have nothing : rowDraft configuration row = {} := if_pos blank
    have unchanged : grammar.addRow line {} = grammar := by simp [addRow, addNames]
    rw [addRows, if_pos blank, nothing, unchanged]
    refine Or.inl ⟨?_, rfl⟩
    rintro ⟨left, right, keeps, _⟩
    rw [keeps.filled.2] at blank
    cases blank
  · rw [addRows, if_neg blank]
    rcases RowDraft.read_cases configuration row with
      ⟨draft, read, _, calm⟩ | ⟨⟨digits, fault⟩, stumbles⟩
    · have draft_eq : rowDraft configuration row = draft := by
        rw [rowDraft, if_neg blank, read]
        rfl
      rw [read, draft_eq]
      exact Or.inl ⟨calm, rfl⟩
    · rw [fault]
      exact Or.inr ⟨⟨digits, rfl⟩, stumbles⟩

theorem mem_names_addRows {line : Nat} {rows : List (List Char)} {grammar final : Grammar}
    (went : addRows configuration line rows grammar = .ok final) (name : String) :
    (name ∈ final.symbolNames ↔ name ∈ grammar.symbolNames ∨
      ∃ row ∈ rows, name ∈ (rowDraft configuration row).symbolNames) ∧
    (name ∈ final.nonterminalNames ↔ name ∈ grammar.nonterminalNames ∨
      ∃ row ∈ rows, name ∈ (rowDraft configuration row).nonterminalNames) := by
  induction rows generalizing line grammar with
  | nil =>
    obtain rfl := Except.ok.inj went
    simp
  | cons row rest ih =>
    rcases addRows_cons configuration line row rest grammar with ⟨_, step⟩ | ⟨⟨_, fault⟩, _⟩
    · rw [step] at went
      have symbols : (grammar.addRow line (rowDraft configuration row)).symbolNames =
          addNames (rowDraft configuration row).symbolNames grammar.symbolNames := rfl
      have nonterminals : (grammar.addRow line (rowDraft configuration row)).nonterminalNames =
          addNames (rowDraft configuration row).nonterminalNames grammar.nonterminalNames := rfl
      simp only [ih went, symbols, nonterminals, mem_addNames, List.mem_cons, exists_eq_or_imp]
      tauto
    · rw [fault] at went
      cases went

/-- The rows add their errors and rules in their order, each error with the number of its row. -/
theorem addRows_cases (configuration : Configuration) (line : Nat) (rows : List (List Char))
    (grammar : Grammar) :
    (∃ final, addRows configuration line rows grammar = .ok final ∧
      (∀ row ∈ rows, ¬ RowStumbles configuration row) ∧
      final.errors = grammar.errors ++ (rows.zipIdx line).flatMap (fun row =>
        (rowDraft configuration row.1).problems.map (.inLine row.2)) ∧
      final.rules = grammar.rules ++ rows.filterMap (fun row => (rowDraft configuration row).rule) ∧
      ∀ name, name ∈ final.attributeNames ↔ name ∈ grammar.attributeNames ∨
        ∃ row ∈ rows, name ∈ (rowDraft configuration row).attributeNames) ∨
    (∃ digits, addRows configuration line rows grammar = .error (.numeralTooLong digits)) ∧
      ∃ row ∈ rows, RowStumbles configuration row := by
  induction rows generalizing line grammar with
  | nil => exact Or.inl ⟨grammar, rfl, by simp, by simp, by simp, by simp⟩
  | cons row rest ih =>
    rcases addRows_cons configuration line row rest grammar with ⟨calm, went⟩ | ⟨fault, stumbles⟩
    · rw [went]
      rcases ih (line + 1) (grammar.addRow line (rowDraft configuration row)) with
        ⟨final, went, quiet, errors, rules, names⟩ | ⟨fault, other, member, stumbles⟩
      · refine Or.inl ⟨final, went, List.forall_mem_cons.mpr ⟨calm, quiet⟩, ?_, ?_, fun name => ?_⟩
        · simp [errors]
        · cases kept : (rowDraft configuration row).rule <;> simp [rules, kept]
        · rw [names, mem_attributeNames_addRow, or_comm (a := name ∈ _), or_assoc]
          simp only [List.mem_cons, exists_eq_or_imp]
      · exact Or.inr ⟨fault, other, List.mem_cons_of_mem _ member, stumbles⟩
    · exact Or.inr ⟨fault, row, List.mem_cons_self, stumbles⟩

/-- The grammar has the errors, the rules and the attribute names of these rows. -/
structure FromRows (configuration : Configuration) (rows : List (List Char)) (grammar : Grammar) :
    Prop where
  calm : ∀ row ∈ rows, ¬ RowStumbles configuration row
  errors : grammar.errors = rows.zipIdx.flatMap fun row =>
    (rowDraft configuration row.1).problems.map (.inLine row.2)
  rules : grammar.rules = rows.filterMap fun row => (rowDraft configuration row).rule
  attributeNames : ∀ name, name ∈ grammar.attributeNames ↔
    ∃ row ∈ rows, name ∈ (rowDraft configuration row).attributeNames

theorem ofRows_cases (configuration : Configuration) (rows : List (List Char)) :
    (∃ grammar, ofRows configuration rows = .ok grammar ∧ FromRows configuration rows grammar) ∨
    (∃ digits, ofRows configuration rows = .error (.numeralTooLong digits)) ∧
      ∃ row ∈ rows, RowStumbles configuration row := by
  rcases addRows_cases configuration 0 rows {} with
    ⟨grammar, went, calm, errors, rules, names⟩ | stumbles
  · exact Or.inl ⟨grammar, went, calm, errors, rules, by simpa using names⟩
  · exact Or.inr stumbles

theorem FromRows.exists_keeps {rows : List (List Char)} {grammar : Grammar}
    (shows : FromRows configuration rows grammar) {rule : Rule} (kept : rule ∈ grammar.rules) :
    ∃ row ∈ rows, (rowDraft configuration row).rule = some rule ∧
      ∃ left right, KeepsRule row left right := by
  rw [shows.rules] at kept
  obtain ⟨row, member, made⟩ := List.mem_filterMap.mp kept
  exact ⟨row, member, made, (rule_rowDraft_isSome (shows.calm row member)).mp (by rw [made]; rfl)⟩

theorem FromRows.mem_errors_iff {rows : List (List Char)} {grammar : Grammar}
    (shows : FromRows configuration rows grammar) {error : GrammarError} :
    error ∈ grammar.errors ↔ ∃ (line : Nat) (row : List Char), rows[line]? = some row ∧
      ∃ problem ∈ (rowDraft configuration row).problems, error = .inLine line problem := by
  simp only [shows.errors, List.mem_flatMap, List.mem_zipIdx_iff_getElem?, List.mem_map, Prod.exists,
    eq_comm (a := error)]
  exact exists_comm

theorem FromRows.mem_errors_line {rows : List (List Char)} {grammar : Grammar}
    (shows : FromRows configuration rows grammar) {line : Nat} {row : List Char}
    (found : rows[line]? = some row) : (∃ error ∈ grammar.errors, error.number = line + 1) ↔
      isEmpty row = false ∧ ¬ Accepted configuration row := by
  have problems := problems_rowDraft (shows.calm row (List.mem_of_getElem? found))
  have wrong : (rowDraft configuration row).problems ≠ [] ↔
      isEmpty row = false ∧ ¬ Accepted configuration row := by
    rw [Ne, problems, not_or, Bool.not_eq_true]
  rw [← wrong]
  constructor
  · rintro ⟨error, member, number⟩ clean
    obtain ⟨other, same, there, problem, present, rfl⟩ := shows.mem_errors_iff.mp member
    obtain rfl : other = line := by
      simp only [GrammarError.number] at number
      omega
    obtain rfl : row = same := by simpa [found] using there
    rw [clean] at present
    cases present
  · intro flawed
    obtain ⟨problem, present⟩ := List.exists_mem_of_ne_nil _ flawed
    exact ⟨.inLine line problem, shows.mem_errors_iff.mpr ⟨line, row, found, problem, present, rfl⟩, rfl⟩

theorem FromRows.errors_ordered {rows : List (List Char)} {grammar : Grammar}
    (shows : FromRows configuration rows grammar) :
    grammar.errors.Pairwise fun earlier later => earlier.number ≤ later.number := by
  rw [shows.errors, List.flatMap, List.pairwise_flatten, List.pairwise_map]
  constructor
  · intro errors member
    obtain ⟨row, _, rfl⟩ := List.mem_map.mp member
    rw [List.pairwise_map]
    exact List.pairwise_of_forall fun _ _ => Int.le_refl _
  · refine (Sequence.pairwise_zipIdx rows).imp fun {earlier later} less first here second there => ?_
    obtain ⟨_, _, rfl⟩ := List.mem_map.mp here
    obtain ⟨_, _, rfl⟩ := List.mem_map.mp there
    simp only [GrammarError.number]
    omega

end Grammar
end AttributeGrammar
