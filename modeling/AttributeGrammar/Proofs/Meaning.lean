import AttributeGrammar.Proofs.Grammar.Declaration
import AttributeGrammar.Proofs.Parsing

/-! What the equations of a text mean.
The rule of a row has the edges that its equations declare, each once and with its source, and its
attributes are indirect unless an equation of the row names them. Reconciliation changes none of that.
-/
namespace AttributeGrammar
open Text

namespace Symbol

/-- The attributes before with the same edges, and others that are indirect and have no edge. -/
structure CompletedTo (before after : Symbol) : Prop where
  kept : ∀ old ∈ before.attributes.entries, ∃ new ∈ after.attributes.entries,
    AttributeGrammar.SameEdges old new
  origin : ∀ new ∈ after.attributes.entries,
    (∃ old ∈ before.attributes.entries, AttributeGrammar.SameEdges old new) ∨
      new.2.indirect = true ∧ new.2.dependencies.keys = []

variable {before middle after : Symbol}

private theorem completedTo_complete (names : List String) (symbol : Symbol) :
    symbol.CompletedTo (symbol.complete names) := by
  constructor
  · exact fun old member => ⟨old, mem_complete.mpr (Or.inl member), rfl, rfl, rfl⟩
  · intro new member
    rcases mem_complete.mp member with old | ⟨_, _, missing⟩
    · exact Or.inl ⟨new, old, rfl, rfl, rfl⟩
    · exact Or.inr (by rw [missing]; exact ⟨rfl, rfl⟩)

theorem CompletedTo.sameEdges (completed : before.CompletedTo middle) (same : middle.SameEdges after) :
    before.CompletedTo after := by
  constructor
  · intro old member
    obtain ⟨between, present, name, indirect, keys⟩ := completed.kept old member
    obtain ⟨place, found⟩ := List.mem_iff_getElem?.mp present
    obtain ⟨new, there, further, still, edges⟩ := Sequence.after_of_getElem? same.2 found
    exact ⟨new, List.mem_of_getElem? there, further.trans name, still.trans indirect, edges.trans keys⟩
  · intro new member
    obtain ⟨place, found⟩ := List.mem_iff_getElem?.mp member
    obtain ⟨between, there, name, indirect, edges⟩ := Sequence.before_of_getElem? same.2 found
    rcases completed.origin between (List.mem_of_getElem? there) with
      ⟨old, present, former, was, keys⟩ | ⟨was, noEdges⟩
    · exact Or.inl ⟨old, present, name.trans former, indirect.trans was, edges.trans keys⟩
    · exact Or.inr ⟨indirect.trans was, edges.trans noEdges⟩

private theorem CompletedTo.hasEdge_iff (completed : before.CompletedTo after) {edge : Edge} :
    after.HasEdge edge ↔ before.HasEdge edge := by
  constructor
  · rintro ⟨new, member, kept⟩
    rcases completed.origin new member with ⟨old, present, _, _, edges⟩ | ⟨_, noEdges⟩
    · exact ⟨old, present, edges ▸ kept⟩
    · rw [noEdges] at kept
      cases kept
  · rintro ⟨old, member, kept⟩
    obtain ⟨new, present, _, _, edges⟩ := completed.kept old member
    exact ⟨new, present, edges ▸ kept⟩

theorem CompletedTo.nodup_edges (completed : before.CompletedTo after) (direct : before.Direct) :
    ∀ entry ∈ after.attributes.entries, entry.2.dependencies.keys.Nodup := by
  intro new member
  rcases completed.origin new member with ⟨old, present, _, _, edges⟩ | ⟨_, noEdges⟩
  · rw [edges]
    exact (direct old present).2
  · rw [noEdges]
    exact List.nodup_nil

theorem CompletedTo.direct_iff (completed : before.CompletedTo after) (direct : before.Direct)
    (distinct : after.attributes.keys.Nodup) {name : String} :
    (∃ data, after.attributes.get? name = some data ∧ data.indirect = false) ↔
      name ∈ before.attributes.keys := by
  constructor
  · rintro ⟨data, found, plain⟩
    rcases completed.origin (name, data) (OrderedMap.mem_of_get? found) with
      ⟨old, present, same, _⟩ | ⟨indirect, _⟩
    · obtain rfl : name = old.1 := same
      exact OrderedMap.mem_keys_of_mem present
    · rw [plain] at indirect
      cases indirect
  · intro member
    obtain ⟨data, present⟩ := OrderedMap.exists_of_mem_keys member
    obtain ⟨⟨_, value⟩, there, rfl, indirect, _⟩ := completed.kept _ present
    exact ⟨value, OrderedMap.get?_of_mem distinct there, indirect.trans (direct _ present).1⟩

end Symbol

namespace Grammar

private theorem completedTo_completeSymbol (grammar : Grammar) (symbol : Symbol) :
    symbol.CompletedTo (grammar.completeSymbol symbol) := by
  unfold completeSymbol
  split
  · exact ⟨fun old member => ⟨old, member, rfl, rfl, rfl⟩,
      fun new member => Or.inl ⟨new, member, rfl, rfl, rfl⟩⟩
  · exact Symbol.completedTo_complete _ symbol

theorem completedTo_reconcile {draft grammar : Grammar}
    (resolved : List.Forall₂ Rule.ResolvesTo draft.collect.complete.rules grammar.rules) :
    List.Forall₂ (fun old new : Rule => List.Forall₂ Symbol.CompletedTo old.symbols new.symbols)
      draft.rules grammar.rules := by
  refine (List.forall₂_map_left_iff.mp resolved).imp fun old new resolves => ?_
  refine (List.forall₂_map_left_iff.mp resolves.sameEdges).imp fun symbol _ same => ?_
  exact (completedTo_completeSymbol _ symbol).sameEdges same

end Grammar

/-! ### A row and its rule -/

/-- Some equation of the row refers on the left to the target of the edge alone, and on the right to
its source, before any reference beyond the rule. -/
def DeclaresEdge (symbolCount : Nat) (row : List Char) (edge : Edge) : Prop :=
  ∃ text, HasEquations row text ∧ ∃ equation ∈ text.splitOn ';', ∃ left right,
    Halves equation left right ∧ IsTarget symbolCount left edge.target ∧
      IsSource symbolCount right edge.source

/-- The attribute is the target of an equation of the row or the source of an edge of the row. -/
def NamesAttribute (symbolCount : Nat) (row : List Char) (c : Coordinate) : Prop :=
  (∃ text, HasEquations row text ∧ ∃ equation ∈ text.splitOn ';', ∃ left right,
    Halves equation left right ∧ IsTarget symbolCount left c) ∨
  ∃ edge, DeclaresEdge symbolCount row edge ∧ edge.source = c

namespace Rule

/-- The rule has what the equations of the row say. -/
structure Expresses (rule : Rule) (symbolCount : Nat) (row : List Char) : Prop where
  length : rule.symbols.length = symbolCount
  edges : ∀ edge, edge ∈ rule.declared.map Prod.fst ↔ DeclaresEdge symbolCount row edge
  once : (rule.declared.map Prod.fst).Nodup
  stored : ∀ (place : Nat) (symbol : Symbol), rule.symbols[place]? = some symbol →
    ∀ entry ∈ symbol.attributes.entries, ∀ d ∈ entry.2.dependencies.entries,
      d.1.source = ⟨place, entry.1⟩
  direct : ∀ c, NamesAttribute symbolCount row c ↔ ∃ (place : Nat) (symbol : Symbol)
    (data : Attribute), rule.symbols[place]? = some symbol ∧ c.symbolIndex = place ∧
      symbol.attributes.get? c.name = some data ∧ data.indirect = false

theorem Sound.nodup_edges_of_completed {old new : Rule} (sound : new.Sound)
    (direct : ∀ symbol ∈ old.symbols, symbol.Direct)
    (completed : List.Forall₂ Symbol.CompletedTo old.symbols new.symbols) :
    (new.declared.map Prod.fst).Nodup := by
  apply sound.nodup_edges
  intro symbol member
  obtain ⟨place, found⟩ := List.mem_iff_getElem?.mp member
  obtain ⟨before, present, same⟩ := Sequence.before_of_getElem? completed found
  exact same.nodup_edges (direct before (List.mem_of_getElem? present))

private theorem Declares.expresses {old new : Rule} {symbolCount : Nat} {row : List Char}
    (length : old.symbols.length = symbolCount)
    (declares : old.Declares (NamesAttribute symbolCount row) (DeclaresEdge symbolCount row))
    (completed : List.Forall₂ Symbol.CompletedTo old.symbols new.symbols) (sound : new.Sound) :
    new.Expresses symbolCount row := by
  have origin {place : Nat} {symbol : Symbol} (found : new.symbols[place]? = some symbol) :
      ∃ before, old.symbols[place]? = some before ∧ before.CompletedTo symbol ∧ before.Direct := by
    obtain ⟨before, present, same⟩ := Sequence.before_of_getElem? completed found
    exact ⟨before, present, same, declares.direct before (List.mem_of_getElem? present)⟩
  refine ⟨completed.length_eq ▸ length, fun edge => ?_,
    sound.nodup_edges_of_completed declares.direct completed, fun place symbol found =>
      (sound.placed place symbol found).sources, fun c => ?_⟩
  · rw [← declares.edges, mem_edges, mem_edges]
    constructor
    · rintro ⟨place, symbol, found, has⟩
      obtain ⟨before, present, same, _⟩ := origin found
      exact ⟨place, before, present, same.hasEdge_iff.mp has⟩
    · rintro ⟨place, before, present, has⟩
      obtain ⟨symbol, found, same⟩ := Sequence.after_of_getElem? completed present
      exact ⟨place, symbol, found, same.hasEdge_iff.mpr has⟩
  · rw [← declares.holds]
    constructor
    · rintro ⟨place, before, present, index, member⟩
      obtain ⟨symbol, found, same⟩ := Sequence.after_of_getElem? completed present
      have direct := declares.direct before (List.mem_of_getElem? present)
      obtain ⟨data, looked, plain⟩ :=
        (same.direct_iff direct (sound.placed place symbol found).distinct).mpr member
      exact ⟨place, symbol, data, found, index, looked, plain⟩
    · rintro ⟨place, symbol, data, found, index, looked, plain⟩
      obtain ⟨before, present, same, direct⟩ := origin found
      exact ⟨place, before, present, index, (same.direct_iff direct
        (sound.placed place symbol found).distinct).mp ⟨data, looked, plain⟩⟩

end Rule

section
variable {configuration : Configuration} {symbolCount : Nat} {row : List Char}
  {equations : List Equation}

theorem EquationsOf.exists_iff (read : EquationsOf configuration symbolCount row equations)
    {P : Equation → Prop} {Q : List Char → Prop}
    (each : ∀ piece equation, Equation.Reads configuration symbolCount piece equation →
      (Q piece ↔ P equation)) : (∃ equation ∈ equations, P equation) ↔
        ∃ text, HasEquations row text ∧ ∃ piece ∈ text.splitOn ';', Q piece := by
  cases read with
  | none absent => simp [absent]
  | some has read =>
    rw [← Sequence.exists_iff_of_forall₂ (read.imp each)]
    constructor
    · exact fun pieces => ⟨_, has, pieces⟩
    · rintro ⟨other, also, pieces⟩
      exact has.unique also ▸ pieces

private theorem EquationsOf.adds_iff (read : EquationsOf configuration symbolCount row equations)
    (edge : Edge) :
    (∃ equation ∈ equations, equation.Adds edge) ↔ DeclaresEdge symbolCount row edge := by
  refine read.exists_iff fun piece equation reads => ?_
  rw [Equation.Adds, reads.target, reads.sources]
  constructor
  · rintro ⟨left, right, halves, target, source⟩
    exact ⟨⟨left, right, halves, target⟩, left, right, halves, ⟨_, target⟩, source⟩
  · rintro ⟨⟨left, right, halves, target⟩, other, rest, others, _, source⟩
    obtain ⟨rfl, rfl⟩ := halves.unique others
    exact ⟨other, rest, halves, target, source⟩

theorem EquationsOf.names_iff (read : EquationsOf configuration symbolCount row equations)
    (c : Coordinate) :
    (∃ equation ∈ equations, equation.Names c) ↔ NamesAttribute symbolCount row c := by
  have targets := read.exists_iff (P := fun equation => equation.target = Option.some c)
    fun piece equation reads => (reads.target c).symm
  rw [NamesAttribute, ← targets]
  simp only [Equation.names_iff, ← read.adds_iff]
  constructor
  · rintro ⟨equation, member, target | ⟨edge, adds, source⟩⟩
    · exact Or.inl ⟨equation, member, target⟩
    · exact Or.inr ⟨edge, ⟨equation, member, adds⟩, source⟩
  · rintro (⟨equation, member, target⟩ | ⟨edge, ⟨equation, member, adds⟩, source⟩)
    · exact ⟨equation, member, Or.inl target⟩
    · exact ⟨equation, member, Or.inr ⟨edge, adds, source⟩⟩

theorem Equation.Reads.fits {piece : List Char} {equation : Equation}
    (reads : Equation.Reads configuration symbolCount piece equation) :
    equation.Fits symbolCount := by
  constructor
  · intro target present
    obtain ⟨_, _, _, _, name, digits, _, _, inside, rfl, _⟩ := (reads.target target).mp present
    exact ⟨decimalValue digits, inside, rfl⟩
  · intro source member
    obtain ⟨_, _, _, _, before, name, digits, after, stands, rfl, inside⟩ :=
      (reads.sources source).mp member
    exact ⟨decimalValue digits, inside before name digits after stands (Nat.le_refl _), rfl⟩

theorem Equation.Reads.mem_attributeNames {piece : List Char} {equation : Equation}
    (reads : Equation.Reads configuration symbolCount piece equation) {name : String} :
    name ∈ equation.attributeNames ↔ ∃ c, equation.Names c ∧ c.name = name := by
  simp only [Equation.attributeNames, List.mem_map, List.mem_append, Option.mem_toList]
  refine exists_congr fun c => and_congr_left fun _ => ?_
  constructor
  · rintro (target | source)
    · exact ⟨c, target, Or.inl rfl⟩
    · obtain ⟨left, right, halves, ⟨target, is⟩, _⟩ := (reads.sources c).mp source
      exact ⟨target, (reads.target target).mpr ⟨left, right, halves, is⟩, Or.inr source⟩
  · rintro ⟨target, present, rfl | source⟩
    · exact Or.inl present
    · exact Or.inr source

private theorem EquationsOf.exists_reads (read : EquationsOf configuration symbolCount row equations) :
    ∀ equation ∈ equations, ∃ piece, Equation.Reads configuration symbolCount piece equation := by
  intro equation member
  cases read with
  | none => cases member
  | some has read =>
    obtain ⟨place, found⟩ := List.mem_iff_getElem?.mp member
    obtain ⟨piece, _, reads⟩ := Sequence.before_of_getElem? read found
    exact ⟨piece, reads⟩

end

namespace Grammar
variable {configuration : Configuration}

theorem declares_rowDraft {row left right : List Char} (calm : ¬ RowStumbles configuration row)
    (keeps : KeepsRule row left right) : ∃ rule, (rowDraft configuration row).rule = some rule ∧
      rule.symbols.length = wordCount right + 1 ∧
      rule.Declares (NamesAttribute (wordCount right + 1) row)
        (DeclaresEdge (wordCount right + 1) row) ∧
      ∀ name, name ∈ (rowDraft configuration row).attributeNames ↔
        ∃ c, NamesAttribute (wordCount right + 1) row c ∧ c.name = name := by
  rcases rowDraft_cases calm with ⟨blank, _⟩ | ⟨_, reads⟩
  · rw [keeps.filled.2] at blank
    cases blank
  · obtain ⟨names, equations, count, read, kept, attributes⟩ := reads.kept left right keeps
    have fits : ∀ equation ∈ equations, equation.Fits names.length := by
      intro equation member
      obtain ⟨piece, reads⟩ := read.exists_reads equation member
      exact count ▸ reads.fits
    obtain ⟨same, declares⟩ := RowDraft.declares_ofEquations fits rfl
    have length := congrArg List.length same
    rw [List.length_map] at length
    refine ⟨_, kept, length.trans count, declares.congr read.names_iff read.adds_iff, fun name => ?_⟩
    simp only [attributes, RowDraft.ofEquations, List.mem_flatMap, ← read.names_iff]
    constructor
    · rintro ⟨equation, member, named⟩
      obtain ⟨piece, reads⟩ := read.exists_reads equation member
      obtain ⟨c, names, same⟩ := reads.mem_attributeNames.mp named
      exact ⟨c, ⟨equation, member, names⟩, same⟩
    · rintro ⟨c, ⟨equation, member, names⟩, same⟩
      obtain ⟨piece, reads⟩ := read.exists_reads equation member
      exact ⟨equation, member, reads.mem_attributeNames.mpr ⟨c, names, same⟩⟩

theorem FromRows.exists_declares {rows : List (List Char)} {draft : Grammar}
    (shows : FromRows configuration rows draft) {rule : Rule} (kept : rule ∈ draft.rules) :
    ∃ row ∈ rows, ∃ symbolCount,
      rule.Declares (NamesAttribute symbolCount row) (DeclaresEdge symbolCount row) := by
  obtain ⟨row, member, made, left, right, keeps⟩ := shows.exists_keeps kept
  obtain ⟨same, found, _, declares, _⟩ := declares_rowDraft (shows.calm row member) keeps
  obtain rfl := Option.some.inj (made.symm.trans found)
  exact ⟨row, member, wordCount right + 1, declares⟩

def HasAttribute (grammar : Grammar) (name : String) : Prop :=
  ∃ rule ∈ grammar.rules, ∃ symbol ∈ rule.symbols, name ∈ symbol.attributes.keys

theorem FromRows.mem_attributeNames {rows : List (List Char)} {draft : Grammar}
    (shows : FromRows configuration rows draft) {name : String} :
    name ∈ draft.attributeNames ↔ draft.HasAttribute name := by
  have row_iff (row : List Char) (member : row ∈ rows) :
      name ∈ (rowDraft configuration row).attributeNames ↔
        ∃ rule, (rowDraft configuration row).rule = some rule ∧
          ∃ symbol ∈ rule.symbols, name ∈ symbol.attributes.keys := by
    have calm := shows.calm row member
    by_cases keeps : ∃ left right, KeepsRule row left right
    · obtain ⟨left, right, keeps⟩ := keeps
      obtain ⟨rule, kept, _, declares, names⟩ := declares_rowDraft calm keeps
      simp only [names, kept, Option.some.injEq, exists_eq_left', ← declares.holds]
      constructor
      · rintro ⟨c, ⟨place, symbol, found, _, present⟩, rfl⟩
        exact ⟨symbol, List.mem_of_getElem? found, present⟩
      · rintro ⟨symbol, present, here⟩
        obtain ⟨place, found⟩ := List.mem_iff_getElem?.mp present
        exact ⟨⟨place, name⟩, ⟨place, symbol, found, rfl, here⟩, rfl⟩
    · have nothing : (rowDraft configuration row).rule = none ∧
          (rowDraft configuration row).attributeNames = [] := by
        rcases rowDraft_cases calm with ⟨_, blank⟩ | ⟨_, reads⟩
        · rw [blank]
          exact ⟨rfl, rfl⟩
        · exact reads.dropped fun left right kept => keeps ⟨left, right, kept⟩
      simp [nothing]
  simp only [HasAttribute, shows.attributeNames, shows.rules, List.mem_filterMap]
  constructor
  · rintro ⟨row, member, named⟩
    obtain ⟨rule, kept, has⟩ := (row_iff row member).mp named
    exact ⟨rule, ⟨row, member, kept⟩, has⟩
  · rintro ⟨rule, ⟨row, member, kept⟩, has⟩
    exact ⟨row, member, (row_iff row member).mpr ⟨rule, kept, has⟩⟩

private theorem hasAttribute_reconcile {draft grammar : Grammar} (drafted : draft.Drafted)
    (resolved : List.Forall₂ Rule.ResolvesTo draft.collect.complete.rules grammar.rules)
    {name : String} : grammar.HasAttribute name ↔ draft.HasAttribute name := by
  constructor
  · rintro ⟨rule, kept, symbol, member, present⟩
    obtain ⟨number, found⟩ := List.mem_iff_getElem?.mp kept
    obtain ⟨middle, there, resolves⟩ := Sequence.before_of_getElem? resolved found
    obtain ⟨place, here⟩ := List.mem_iff_getElem?.mp member
    obtain ⟨old, was, same⟩ := Sequence.before_of_getElem? resolves.sameEdges here
    rw [same.keys, keys_complete drafted (List.mem_of_getElem? there) (List.mem_of_getElem? was),
      Text.sorted, List.mem_mergeSort] at present
    rcases mem_collectAttributes.mp present with absent | ⟨occurrence, occurs, _, declared⟩
    · simp at absent
    · obtain ⟨rule, kept, member⟩ := List.mem_flatMap.mp occurs
      exact ⟨rule, kept, occurrence, member, declared⟩
  · rintro ⟨rule, kept, symbol, member, present⟩
    obtain ⟨number, found⟩ := List.mem_iff_getElem?.mp kept
    obtain ⟨new, there, completed⟩ :=
      Sequence.after_of_getElem? (completedTo_reconcile resolved) found
    obtain ⟨place, here⟩ := List.mem_iff_getElem?.mp member
    obtain ⟨after, last, same⟩ := Sequence.after_of_getElem? completed here
    obtain ⟨data, stored⟩ := OrderedMap.exists_of_mem_keys present
    obtain ⟨entry, written, named, _⟩ := same.kept _ stored
    refine ⟨new, List.mem_of_getElem? there, after, List.mem_of_getElem? last, ?_⟩
    obtain rfl : entry.1 = name := named
    exact OrderedMap.mem_keys_of_mem written

end Grammar

namespace Study
variable {reading : Reading} {text : List Char} {grammar : Grammar}

private theorem Drafts.expresses {draft : Grammar} (drafts : Drafts reading text draft grammar)
    {row : List Char} {rule : Rule} {number : Nat} (member : row ∈ rows text)
    {left right : List Char} (keeps : KeepsRule row left right)
    (listed : ∃ old, draft.rules[number]? = some old ∧
      (Grammar.rowDraft reading.configuration row).rule = some old)
    (found : grammar.rules[number]? = some rule) : rule.Expresses (wordCount right + 1) row := by
  obtain ⟨ready, _, _, resolved⟩ := drafts.of_reconcile
  obtain ⟨old, present, drafted⟩ := listed
  obtain ⟨same, kept, length, declares, _⟩ :=
    Grammar.declares_rowDraft (drafts.fromRows.calm row member) keeps
  obtain rfl : old = same := by simpa [drafted] using kept
  obtain ⟨new, there, completed⟩ :=
    Sequence.after_of_getElem? (Grammar.completedTo_reconcile resolved) present
  obtain rfl : rule = new := by simpa [found] using there
  exact declares.expresses length completed (ready.sound rule (List.mem_of_getElem? found))

open scoped Classical in
/-- The rows that keep a rule and the rules of the grammar, one for one: each rule has what the
equations of its row say, whatever attributes or edges are repeated. The grammar lists the names of all
attributes of its rules and no others. -/
theorem rules_express_rows (calm : ¬ ReachesLongReference reading.configuration text) :
    ∃ grammar, ofCharacters { reading with analyze := false } text = .ok { grammar := grammar } ∧
      (∀ study, ofCharacters reading text = .ok study → study.grammar = grammar) ∧
      List.Forall₂ (fun row rule => ∃ left right, KeepsRule row left right ∧
          rule.Expresses (wordCount right + 1) row)
        ((rows text).filter fun row => ∃ left right, KeepsRule row left right) grammar.rules ∧
      ∀ name, name ∈ grammar.attributeNames ↔ grammar.HasAttribute name := by
  obtain ⟨grammar, parses⟩ := exists_grammar calm
  refine ⟨grammar, parses.read, fun study => parses.unique, ?_⟩
  rcases parses.origin with ⟨blank, rfl⟩ | ⟨_, draft, drafts⟩
  · have noRows : (rows text).filter (fun row => ∃ left right, KeepsRule row left right) = [] := by
      rw [List.filter_eq_nil_iff]
      intro row member keeps
      obtain ⟨left, right, keeps⟩ := of_decide_eq_true keeps
      rw [filled_of_keeps member keeps] at blank
      cases blank
    rw [noRows]
    exact ⟨.nil, by simp [Grammar.HasAttribute]⟩
  · obtain ⟨ready, _, names, resolved⟩ := drafts.of_reconcile
    have kept := Sequence.forall₂_filterMap
      (fun row => (Grammar.rowDraft reading.configuration row).rule) (rows text)
    rw [← drafts.fromRows.rules] at kept
    have filtered : (rows text).filter (fun row => ∃ left right, KeepsRule row left right) =
        (rows text).filter fun row =>
          (Grammar.rowDraft reading.configuration row).rule.isSome := by
      refine List.filter_congr fun row member => ?_
      rw [Bool.eq_iff_iff, decide_eq_true_iff,
        Grammar.rule_rowDraft_isSome (drafts.fromRows.calm row member)]
    constructor
    · apply Sequence.forall₂_of_getElem?
      · rw [filtered, kept.length_eq, (Grammar.completedTo_reconcile resolved).length_eq]
      · intro place row rule here found
        obtain ⟨member, keeps⟩ := List.mem_filter.mp (List.mem_of_getElem? here)
        obtain ⟨left, right, keeps⟩ := of_decide_eq_true keeps
        rw [filtered] at here
        exact ⟨left, right, keeps, drafts.expresses member keeps
          (Sequence.after_of_getElem? kept here) found⟩
    · intro name
      rw [names, drafts.fromRows.mem_attributeNames,
        Grammar.hasAttribute_reconcile drafts.drafted resolved]

/-- The second equation repeats the edge of the first and then goes beyond the rule. -/
def repeatedEdge : List Char := "S -> A : v[0] = v[1]; v[0] = v[1] w[2]".toList

theorem expresses_repeatedEdge : ∃ study rule,
    ofCharacters { roundLimit := 4 } repeatedEdge = .ok study ∧ study.grammar.rules = [rule] ∧
      rule.declared.map Prod.fst = [⟨⟨1, "v"⟩, ⟨0, "v"⟩⟩] ∧
      ∃ row ∈ rows repeatedEdge, ∃ symbolCount, rule.Expresses symbolCount row := by
  have read : ∃ study rule, ofCharacters { roundLimit := 4 } repeatedEdge = .ok study ∧
      study.grammar.rules = [rule] ∧ rule.declared.map Prod.fst = [⟨⟨1, "v"⟩, ⟨0, "v"⟩⟩] :=
    ⟨_, _, by cbv, by cbv, by cbv⟩
  obtain ⟨study, rule, read, rules, edges⟩ := read
  obtain ⟨grammar, _, same, related, _⟩ := rules_express_rows (not_reaches_of_ok read)
  rw [← same study read, rules] at related
  have found : [rule][0]? = some rule := rfl
  obtain ⟨row, here, left, right, _, expresses⟩ := Sequence.before_of_getElem? related found
  have member := (List.mem_filter.mp (List.mem_of_getElem? here)).1
  exact ⟨study, rule, read, rules, edges, row, member, _, expresses⟩

end Study
end AttributeGrammar
