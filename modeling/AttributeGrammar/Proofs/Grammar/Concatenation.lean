import AttributeGrammar.Proofs.Grammar.Draft
import Mathlib

/-! Rows are read independently.
What a row contributes does not depend on the rows before it, so the draft of some rows followed by
others is the draft of the first with that of the others put behind it: the numbers of the later rules
go on from the earlier ones, and so do the numbers of the lines.
-/
namespace AttributeGrammar

def GrammarError.movedDown (lines : Nat) : GrammarError → GrammarError
  | .inLine line problem => .inLine (lines + line) problem
  | error => error

/-- Names may be added one collection after another or all at once. -/
theorem addNames_addNames (names known further : List String) :
    addNames (addNames names known) further = addNames names (addNames known further) := by
  induction names with
  | nil => rfl
  | cons name rest ih =>
    change addNames (List.insert name (addNames rest known)) further =
      List.insert name (addNames rest (addNames known further))
    by_cases present : name ∈ addNames rest known
    · have already : name ∈ addNames rest (addNames known further) := by
        rw [← ih]
        exact Grammar.mem_addNames.mpr (Or.inl present)
      rw [List.insert_of_mem present, List.insert_of_mem already, ih]
    · rw [List.insert_of_not_mem present, ← ih]
      rfl

namespace Grammar
variable {configuration : Configuration} {first later : Grammar}

def listed (grammar : Grammar) (name : String) : List Nat := (grammar.nonterminals.get? name).getD []

/-- The names of the first table and then the new ones of the later, each with the rules of both; the
later rules are numbered behind the first. -/
def tableWith (first later : Grammar) : OrderedMap String (List Nat) :=
  ⟨(first.nonterminals.keys ++
      later.nonterminals.keys.filter fun name => !first.nonterminals.contains name).map fun name =>
    (name, first.listed name ++ (later.listed name).map (first.rules.length + ·))⟩

/-- The draft of rows of which the last ones, behind the first `lines`, have the draft `later`. -/
def followedBy (first : Grammar) (lines : Nat) (later : Grammar) : Grammar :=
  { first with
    symbolNames := addNames later.symbolNames first.symbolNames
    nonterminalNames := addNames later.nonterminalNames first.nonterminalNames
    attributeNames := addNames later.attributeNames first.attributeNames
    rules := first.rules ++ later.rules
    nonterminals := first.tableWith later
    errors := first.errors ++ later.errors.map (.movedDown lines) }

/-! ### The table of nonterminals -/

private theorem keys_tableWith : (first.tableWith later).keys = first.nonterminals.keys ++
    later.nonterminals.keys.filter fun name => !first.nonterminals.contains name := by
  simp [tableWith, OrderedMap.keys, Function.comp_def]

private theorem mem_keys_tableWith {name : String} : name ∈ (first.tableWith later).keys ↔
    name ∈ first.nonterminals.keys ∨ name ∈ later.nonterminals.keys := by
  rw [keys_tableWith, List.mem_append, List.mem_filter, Bool.not_eq_true', ← Bool.not_eq_true,
    OrderedMap.contains_iff]
  tauto

private theorem nodup_keys_tableWith (distinct : first.nonterminals.keys.Nodup)
    (distinctLater : later.nonterminals.keys.Nodup) : (first.tableWith later).keys.Nodup := by
  rw [keys_tableWith, List.nodup_append]
  refine ⟨distinct, distinctLater.filter _, fun name known other new same => ?_⟩
  have absent := (List.mem_filter.mp new).2
  rw [← same, OrderedMap.contains_iff.mpr known] at absent
  cases absent

private theorem listed_of_not_mem {grammar : Grammar} {name : String}
    (absent : name ∉ grammar.nonterminals.keys) : grammar.listed name = [] := by
  rw [listed, OrderedMap.get?_eq_none_iff.mpr absent, Option.getD_none]

private theorem getD_tableWith (name : String) : ((first.tableWith later).get? name).getD [] =
    first.listed name ++ (later.listed name).map (first.rules.length + ·) := by
  have looked : (first.tableWith later).get? name = if name ∈ first.nonterminals.keys ++
      later.nonterminals.keys.filter (fun name => !first.nonterminals.contains name) then
        some (first.listed name ++ (later.listed name).map (first.rules.length + ·)) else none :=
    OrderedMap.get?_map_keys _ _ name
  rw [looked]
  split
  · rfl
  · next absent =>
    rw [← keys_tableWith, mem_keys_tableWith, not_or] at absent
    obtain ⟨unknown, missing⟩ := absent
    rw [listed_of_not_mem unknown, listed_of_not_mem missing]
    rfl

private theorem nonterminals_addRule {rule : Rule} {left : Symbol} (named : rule.left? = some left)
    (grammar : Grammar) : (grammar.addRule rule).nonterminals =
      grammar.nonterminals.insert left.name (grammar.listed left.name ++ [grammar.rules.length]) := by
  simp [Grammar.addRule, named, listed]

private theorem nodup_keys_addRule (distinct : first.nonterminals.keys.Nodup) (rule : Rule) :
    (first.addRule rule).nonterminals.keys.Nodup := by
  cases named : rule.left? with
  | none => simpa [Grammar.addRule, named] using distinct
  | some left =>
    rw [nonterminals_addRule named]
    exact OrderedMap.nodup_keys_insert distinct _ _

private theorem tableWith_addRule (distinct : first.nonterminals.keys.Nodup)
    (distinctLater : later.nonterminals.keys.Nodup) (lines : Nat) (rule : Rule) :
    first.tableWith (later.addRule rule) =
      ((first.followedBy lines later).addRule rule).nonterminals := by
  cases named : rule.left? with
  | none => simp [Grammar.addRule, named, followedBy, tableWith, listed]
  | some left =>
    have entered := nonterminals_addRule named later
    have numbers (name : String) : (later.addRule rule).listed name = if name = left.name then
        later.listed left.name ++ [later.rules.length] else later.listed name := by
      rw [listed, entered, OrderedMap.get?_insert]
      split <;> rfl
    rw [nonterminals_addRule named]
    refine OrderedMap.eq_of_getD
      (nodup_keys_tableWith distinct (nodup_keys_addRule distinctLater rule)) [] ?_ fun name => ?_
    · rw [OrderedMap.keys_insert, followedBy, keys_tableWith, keys_tableWith, entered,
        OrderedMap.keys_insert]
      by_cases known : left.name ∈ first.nonterminals.keys
      · have found := OrderedMap.contains_iff.mpr known
        by_cases present : left.name ∈ later.nonterminals.keys <;> simp [known, present, found]
      · have missing := Bool.eq_false_iff.mpr (mt OrderedMap.contains_iff.mp known)
        by_cases present : left.name ∈ later.nonterminals.keys <;> simp [known, present, missing]
    · have both : (first.followedBy lines later).listed left.name =
          first.listed left.name ++ (later.listed left.name).map (first.rules.length + ·) :=
        getD_tableWith left.name
      rw [getD_tableWith, OrderedMap.get?_insert, numbers, both]
      by_cases same : name = left.name
      · subst same
        simp [followedBy]
      · simp only [if_neg same]
        exact (getD_tableWith name).symm

private theorem tableWith_empty (distinct : first.nonterminals.keys.Nodup) :
    first.tableWith {} = first.nonterminals := by
  refine OrderedMap.eq_of_getD (nodup_keys_tableWith distinct List.nodup_nil) [] ?_ fun name => ?_
  · rw [keys_tableWith]
    exact List.append_nil _
  · rw [getD_tableWith]
    exact List.append_nil _

/-! ### Rows -/

private theorem followedBy_empty (distinct : first.nonterminals.keys.Nodup) (lines : Nat) :
    first.followedBy lines {} = first := by
  have table := tableWith_empty distinct
  cases first
  simp_all [followedBy, addNames]

private theorem nodup_keys_addRow (distinct : first.nonterminals.keys.Nodup) (line : Nat)
    (draft : RowDraft) : (first.addRow line draft).nonterminals.keys.Nodup := by
  cases kept : draft.rule with
  | none => simpa [addRow, kept] using distinct
  | some rule => simpa [addRow, kept] using nodup_keys_addRule distinct rule

private theorem addRow_followedBy (distinct : first.nonterminals.keys.Nodup)
    (distinctLater : later.nonterminals.keys.Nodup) (lines line : Nat) (draft : RowDraft) :
    (first.followedBy lines later).addRow (lines + line) draft =
      first.followedBy lines (later.addRow line draft) := by
  have errors : draft.problems.map (GrammarError.inLine ((lines + line : Nat) : Int)) =
      (draft.problems.map (GrammarError.inLine line)).map (.movedDown lines) := by
    simp [GrammarError.movedDown]
  cases kept : draft.rule with
  | none =>
    simp only [addRow, kept, followedBy, addNames_addNames, errors, List.map_append,
      List.append_assoc]
    rfl
  | some rule =>
    have table := tableWith_addRule distinct distinctLater lines rule
    have rules : ((first.followedBy lines later).addRule rule).rules =
        first.rules ++ (later.addRule rule).rules := List.append_assoc _ _ _
    simp only [addRow, kept, followedBy, addNames_addNames, errors, List.map_append,
      List.append_assoc, Grammar.mk.injEq]
    exact ⟨trivial, trivial, rfl, trivial, rules, table.symm, rfl, rfl, trivial⟩

private theorem addRows_append (configuration : Configuration) (line : Nat) (xs ys : List (List Char))
    (grammar : Grammar) : addRows configuration line (xs ++ ys) grammar =
      addRows configuration line xs grammar >>= addRows configuration (line + xs.length) ys := by
  induction xs generalizing line grammar with
  | nil => rfl
  | cons row rest ih =>
    have lines : line + (row :: rest).length = line + 1 + rest.length := by
      rw [List.length_cons]
      omega
    rw [List.cons_append, addRows, addRows, lines]
    split
    · exact ih (line + 1) grammar
    · cases RowDraft.read configuration row with
      | error fault => rfl
      | ok draft => exact ih (line + 1) (grammar.addRow line draft)

/-- Rows added behind other rows are added to their own draft, and that is put behind the first. -/
theorem addRows_followedBy (distinct : first.nonterminals.keys.Nodup) (lines line : Nat)
    (rows : List (List Char)) (distinctLater : later.nonterminals.keys.Nodup) :
    addRows configuration (lines + line) rows (first.followedBy lines later) =
      (addRows configuration line rows later).map (first.followedBy lines) := by
  induction rows generalizing line later with
  | nil => rfl
  | cons row rest ih =>
    rw [addRows, addRows, Nat.add_assoc]
    split
    · exact ih (line + 1) distinctLater
    · cases RowDraft.read configuration row with
      | error fault => rfl
      | ok draft =>
        change addRows configuration (lines + (line + 1)) rest (addRow (lines + line) draft _) = _
        rw [addRow_followedBy distinct distinctLater]
        exact ih (line + 1) (nodup_keys_addRow distinctLater line draft)

/-- The draft of all rows puts that of the last ones behind that of the first. -/
theorem ofRows_append (configuration : Configuration) (xs ys : List (List Char)) :
    ofRows configuration (xs ++ ys) = (do
      let first ← ofRows configuration xs
      let later ← ofRows configuration ys
      pure (first.followedBy xs.length later)) := by
  rw [ofRows, addRows_append, Nat.zero_add, ofRows]
  cases went : addRows configuration 0 xs {} with
  | error fault => rfl
  | ok first =>
    have distinct := (drafted_ofRows went).distinct
    have behind : addRows configuration (xs.length + 0) ys (first.followedBy xs.length {}) =
        (addRows configuration 0 ys {}).map (first.followedBy xs.length) :=
      addRows_followedBy distinct xs.length 0 ys List.nodup_nil
    rw [followedBy_empty distinct] at behind
    change addRows configuration (xs.length + 0) ys first = _
    rw [behind]
    change _ = (ofRows configuration ys >>= fun later => pure (first.followedBy xs.length later))
    rw [ofRows]
    cases addRows configuration 0 ys {} <;> rfl

/-! ### The order of the table -/

private theorem keys_addRule {grammar : Grammar}
    (ordered : grammar.nonterminals.keys = (grammar.rules.filterMap Rule.leftName?).eraseDups)
    (rule : Rule) : (grammar.addRule rule).nonterminals.keys =
      ((grammar.addRule rule).rules.filterMap Rule.leftName?).eraseDups := by
  change _ = ((grammar.rules ++ [rule]).filterMap Rule.leftName?).eraseDups
  rw [List.filterMap_append]
  cases named : rule.left? with
  | none =>
    have nameless : [rule].filterMap Rule.leftName? = [] := by simp [Rule.leftName?, named]
    rw [nameless, List.append_nil, ← ordered]
    simp [Grammar.addRule, named]
  | some left =>
    have single : [rule].filterMap Rule.leftName? = [left.name] := by simp [Rule.leftName?, named]
    rw [single, Sequence.eraseDups_append_singleton, ← ordered,
      nonterminals_addRule named, OrderedMap.keys_insert]

theorem keys_addRows {line : Nat} {rows : List (List Char)} {grammar final : Grammar}
    (went : addRows configuration line rows grammar = .ok final)
    (ordered : grammar.nonterminals.keys = (grammar.rules.filterMap Rule.leftName?).eraseDups) :
    final.nonterminals.keys = (final.rules.filterMap Rule.leftName?).eraseDups := by
  induction rows generalizing line grammar with
  | nil => exact Except.ok.inj went ▸ ordered
  | cons row rest ih =>
    rw [addRows] at went
    split at went
    · exact ih went ordered
    · obtain ⟨draft, _, went⟩ := bind_success went
      apply ih went
      cases kept : draft.rule with
      | none => simpa [addRow, kept] using ordered
      | some rule => simpa only [addRow, kept] using keys_addRule ordered rule

/-- Rows are read independently: the draft of two lists of rows is made of their own drafts, with the
names of both, the rules and the errors of the later behind those of the first, and the left sides in
the order of their first rules. A single row, in order or not, leaves the drafts of the others as they
are. -/
theorem independent_rows (configuration : Configuration) (xs ys : List (List Char)) :
    ofRows configuration (xs ++ ys) = (do
      let first ← ofRows configuration xs
      let later ← ofRows configuration ys
      pure (first.followedBy xs.length later)) ∧
    (∀ row, ofRows configuration (xs ++ row :: ys) = (do
      let first ← ofRows configuration xs
      let own ← ofRows configuration [row]
      let later ← ofRows configuration ys
      pure ((first.followedBy xs.length own).followedBy (xs.length + 1) later))) ∧
    ∀ first later whole, ofRows configuration xs = .ok first → ofRows configuration ys = .ok later →
      whole = first.followedBy xs.length later →
      (∀ name, name ∈ whole.symbolNames ↔ name ∈ first.symbolNames ∨ name ∈ later.symbolNames) ∧
      (∀ name, name ∈ whole.nonterminalNames ↔
        name ∈ first.nonterminalNames ∨ name ∈ later.nonterminalNames) ∧
      (∀ name, name ∈ whole.attributeNames ↔
        name ∈ first.attributeNames ∨ name ∈ later.attributeNames) ∧
      whole.nonterminals.keys = ((first.rules ++ later.rules).filterMap Rule.leftName?).eraseDups ∧
      ∀ name, whole.listed name =
        first.listed name ++ (later.listed name).map (first.rules.length + ·) := by
  refine ⟨ofRows_append configuration xs ys, fun row => ?_, ?_⟩
  · rw [List.append_cons, ofRows_append, ofRows_append, bind_assoc, List.length_append]
    simp only [bind_assoc, pure_bind, List.length_singleton]
  · rintro first later whole readFirst readLater rfl
    have went := ofRows_append configuration xs ys
    rw [readFirst, readLater] at went
    have names {earlier later : List String} (name : String) :
        name ∈ addNames later earlier ↔ name ∈ earlier ∨ name ∈ later :=
      mem_addNames.trans or_comm
    exact ⟨names, names, names, keys_addRows went rfl, getD_tableWith⟩

/-- The right side of the second row contains a bracket. -/
def bracketInSecond : List (List Char) :=
  ["S -> A : v[0] = v[1]".toList, "A -> ] : v[0] = v[1]".toList]

/-- The equation of the first row has no equals sign. -/
def equalsMissingInFirst : List (List Char) := ["A -> a : v[0]".toList, "S -> b".toList]

theorem independent_bracketInSecond : ∃ first later whole,
    ofRows {} bracketInSecond = .ok first ∧ ofRows {} equalsMissingInFirst = .ok later ∧
      ofRows {} (bracketInSecond ++ equalsMissingInFirst) = .ok whole ∧
      whole.errors.map GrammarError.number = [2, 3] ∧ whole.nonterminals.keys = ["S", "A"] ∧
      whole.listed "S" = [0, 2] ∧ whole.listed "A" = [1] := by
  have read : ∃ first later, ofRows {} bracketInSecond = .ok first ∧
      ofRows {} equalsMissingInFirst = .ok later ∧
      (first.errors ++ later.errors.map (GrammarError.movedDown 2)).map GrammarError.number = [2, 3] ∧
      ((first.rules ++ later.rules).filterMap Rule.leftName?).eraseDups = ["S", "A"] ∧
      first.rules.length = 1 ∧ first.listed "S" = [0] ∧ later.listed "S" = [1] ∧
      first.listed "A" = [] ∧ later.listed "A" = [0] :=
    ⟨_, _, by cbv, by cbv, by cbv, by cbv, by cbv, by cbv, by cbv, by cbv, by cbv⟩
  obtain ⟨first, later, readFirst, readLater, errors, keys, count, firstS, laterS, firstA, laterA⟩ := read
  obtain ⟨went, _, parts⟩ := independent_rows {} bracketInSecond equalsMissingInFirst
  obtain ⟨_, _, _, table, listed⟩ := parts first later _ readFirst readLater rfl
  refine ⟨first, later, _, readFirst, readLater, by rw [went, readFirst, readLater]; rfl, errors,
    table.trans keys, ?_, ?_⟩
  · rw [listed, firstS, laterS, count]
    rfl
  · rw [listed, firstA, laterA, count]
    rfl

end Grammar
end AttributeGrammar
