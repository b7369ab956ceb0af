import AttributeGrammar.Grammar.Row
import AttributeGrammar.Proofs.Grammar.Rule

/-! What the equations of a row make of its rule.
An equation adds its target and its sources to the attributes of the rule, and an edge from each source
to the target. Nothing that was declared before is lost.
-/
namespace AttributeGrammar

namespace Symbol

private theorem name_declare (name : String) (symbol : Symbol) :
    (symbol.declare name).name = symbol.name := by
  unfold declare
  split <;> rfl

private theorem name_depend (d : Dependency) (symbol : Symbol) :
    (symbol.depend d).name = symbol.name := rfl

private theorem map_name_modify {change : Symbol → Symbol} (keeps : ∀ symbol, (change symbol).name =
    symbol.name) (place : Nat) (symbols : List Symbol) :
    (symbols.modify place change).map name = symbols.map name := by
  apply List.ext_getElem?
  intro here
  simp only [List.getElem?_map, List.getElem?_modify]
  cases symbols[here]? with
  | none => rfl
  | some symbol => by_cases same : place = here <;> simp [same, keeps]

def HasEdge (symbol : Symbol) (edge : Edge) : Prop :=
  ∃ entry ∈ symbol.attributes.entries, edge ∈ entry.2.dependencies.keys

/-- No attribute is indirect, and each keeps every edge once. -/
def Direct (symbol : Symbol) : Prop :=
  ∀ entry ∈ symbol.attributes.entries,
    entry.2.indirect = false ∧ entry.2.dependencies.keys.Nodup

variable {symbol : Symbol} {name : String} {d : Dependency} {edge : Edge}

private theorem hasEdge_declare : (symbol.declare name).HasEdge edge ↔ symbol.HasEdge edge := by
  constructor
  · rintro ⟨entry, member, kept⟩
    rcases mem_declare member with rfl | old
    · cases kept
    · exact ⟨entry, old, kept⟩
  · rintro ⟨entry, member, kept⟩
    refine ⟨entry, ?_, kept⟩
    unfold declare
    split
    · exact member
    · next absent =>
      refine OrderedMap.mem_insert_of_ne _ member fun same => absent ?_
      exact OrderedMap.contains_iff.mpr (same ▸ OrderedMap.mem_keys_of_mem member)

private theorem hasEdge_depend (distinct : symbol.attributes.keys.Nodup) :
    (symbol.depend d).HasEdge edge ↔ edge = d.1 ∨ symbol.HasEdge edge := by
  constructor
  · rintro ⟨entry, member, kept⟩
    obtain ⟨positions, here⟩ := OrderedMap.exists_of_mem_keys kept
    rcases mem_depend member here with ⟨_, same⟩ | ⟨old, present, _, was⟩
    · exact Or.inl (congrArg Prod.fst same)
    · exact Or.inr ⟨old, present, OrderedMap.mem_keys_of_mem was⟩
  · have written := OrderedMap.mem_insert_self symbol.attributes d.source.name
      { (symbol.attributes.get? d.source.name).getD {} with
        dependencies := ((symbol.attributes.get? d.source.name).getD {}).dependencies.insert
          d.edge d.positions }
    rintro (rfl | ⟨entry, member, kept⟩)
    · exact ⟨_, written, OrderedMap.mem_keys_insert.mpr (Or.inl rfl)⟩
    · by_cases same : entry.1 = d.source.name
      · refine ⟨_, written, OrderedMap.mem_keys_insert.mpr (Or.inr ?_)⟩
        rw [← same, OrderedMap.get?_of_mem distinct member]
        exact kept
      · exact ⟨entry, OrderedMap.mem_insert_of_ne _ member same, kept⟩

theorem Direct.declare (direct : symbol.Direct) (name : String) : (symbol.declare name).Direct := by
  intro entry member
  rcases mem_declare member with rfl | old
  · exact ⟨rfl, List.nodup_nil⟩
  · exact direct entry old

theorem Direct.depend (direct : symbol.Direct) (d : Dependency) : (symbol.depend d).Direct := by
  have former : ((symbol.attributes.get? d.source.name).getD {}).indirect = false ∧
      ((symbol.attributes.get? d.source.name).getD {}).dependencies.keys.Nodup := by
    cases found : symbol.attributes.get? d.source.name with
    | none => exact ⟨rfl, List.nodup_nil⟩
    | some data => exact direct (d.source.name, data) (OrderedMap.mem_of_get? found)
  intro entry member
  rcases OrderedMap.mem_insert member with rfl | old
  · exact ⟨former.1, OrderedMap.nodup_keys_insert former.2 _ _⟩
  · exact direct entry old

end Symbol

namespace Rule
variable {rule : Rule} {symbols : List Symbol} {edge : Edge} {place : Nat}

theorem mem_edges {rule : Rule} {edge : Edge} : edge ∈ rule.declared.map Prod.fst ↔
    ∃ (place : Nat) (symbol : Symbol), rule.symbols[place]? = some symbol ∧ symbol.HasEdge edge := by
  simp only [List.mem_map, mem_declared]
  constructor
  · rintro ⟨d, ⟨place, symbol, found, entry, member, kept⟩, rfl⟩
    exact ⟨place, symbol, found, entry, member, OrderedMap.mem_keys_of_mem kept⟩
  · rintro ⟨place, symbol, found, entry, member, kept⟩
    obtain ⟨positions, here⟩ := OrderedMap.exists_of_mem_keys kept
    exact ⟨_, ⟨place, symbol, found, entry, member, here⟩, rfl⟩

/-- The rule has just these attributes and these edges, all declared in the row of the rule. -/
structure Declares (rule : Rule) (named : Coordinate → Prop) (edges : Edge → Prop) : Prop where
  sound : rule.Sound
  direct : ∀ symbol ∈ rule.symbols, symbol.Direct
  holds : ∀ c, rule.Holds c ↔ named c
  edges : ∀ edge, edge ∈ rule.declared.map Prod.fst ↔ edges edge

private theorem holds_modify {change : Symbol → Symbol} {name : String}
    (inside : place < symbols.length)
    (each : ∀ symbol other, other ∈ (change symbol).attributes.keys ↔
      other = name ∨ other ∈ symbol.attributes.keys) (c : Coordinate) :
    Rule.Holds ⟨symbols.modify place change⟩ c ↔ c = ⟨place, name⟩ ∨ Rule.Holds ⟨symbols⟩ c := by
  apply Sequence.exists_getElem?_modify (fun here symbol => c.symbolIndex = ((here : Nat) : Int) ∧
    c.name ∈ symbol.attributes.keys) (c = ⟨place, name⟩) inside
  intro symbol _
  obtain ⟨index, text⟩ := c
  rw [each, Coordinate.mk.injEq]
  tauto

private theorem direct_modify {change : Symbol → Symbol} (direct : ∀ symbol ∈ symbols, symbol.Direct)
    (keeps : ∀ symbol : Symbol, symbol.Direct → (change symbol).Direct) :
    ∀ symbol ∈ symbols.modify place change, symbol.Direct := by
  intro symbol member
  obtain ⟨here, found⟩ := List.mem_iff_getElem?.mp member
  by_cases same : place = here
  · subst same
    obtain ⟨old, present, rfl⟩ : ∃ old, symbols[place]? = some old ∧ change old = symbol := by
      simpa using found
    exact keeps old (direct old (List.mem_of_getElem? present))
  · rw [List.getElem?_modify_ne change symbols same] at found
    exact direct symbol (List.mem_of_getElem? found)

variable {named : Coordinate → Prop} {edges : Edge → Prop}

theorem Declares.declare (declares : Rule.Declares ⟨symbols⟩ named edges)
    (inside : place < symbols.length) (name : String) :
    Rule.Declares ⟨symbols.modify place (Symbol.declare name)⟩
      (fun c => c = ⟨place, name⟩ ∨ named c) edges := by
  refine ⟨declares.sound.declare place name, direct_modify declares.direct fun symbol direct =>
    direct.declare name, fun c => ?_, fun edge => ?_⟩
  · rw [holds_modify inside (fun symbol other => Symbol.mem_keys_declare), declares.holds]
  · rw [← declares.edges, mem_edges, mem_edges]
    have keeps (symbol : Symbol) : (symbol.declare name).HasEdge edge ↔ False ∨ symbol.HasEdge edge := by
      rw [Symbol.hasEdge_declare, false_or]
    have same := Sequence.exists_getElem?_modify (fun _ symbol => Symbol.HasEdge symbol edge) False
      inside fun symbol _ => keeps symbol
    rw [same, false_or]

theorem Declares.depend (declares : Rule.Declares ⟨symbols⟩ named edges)
    (inside : place < symbols.length) {d : Dependency} (start : d.1.source.symbolIndex = (place : Int))
    (target : named d.1.target) : Rule.Declares ⟨symbols.modify place (Symbol.depend d)⟩
      (fun c => c = d.1.source ∨ named c) (fun edge => edge = d.1 ∨ edges edge) := by
  have source : d.1.source = ⟨place, d.source.name⟩ := by
    rw [← start]
    rfl
  refine ⟨declares.sound.depend start ((declares.holds _).mpr target), direct_modify declares.direct
    fun symbol direct => direct.depend d, fun c => ?_, fun edge => ?_⟩
  · rw [holds_modify inside (fun symbol other => Symbol.mem_keys_depend), declares.holds, source]
  · rw [← declares.edges, mem_edges, mem_edges]
    exact Sequence.exists_getElem?_modify (fun _ symbol => Symbol.HasEdge symbol edge) (edge = d.1)
      inside fun symbol found =>
        Symbol.hasEdge_depend (declares.sound.placed place symbol found).distinct

theorem Declares.congr (declares : rule.Declares named edges) {others : Coordinate → Prop}
    {further : Edge → Prop} (names : ∀ c, named c ↔ others c)
    (same : ∀ edge, edges edge ↔ further edge) : rule.Declares others further :=
  ⟨declares.sound, declares.direct, fun c => (declares.holds c).trans (names c),
    fun edge => (declares.edges edge).trans (same edge)⟩

theorem Sound.nodup_edges (sound : rule.Sound) (once : ∀ symbol ∈ rule.symbols,
    ∀ entry ∈ symbol.attributes.entries, entry.2.dependencies.keys.Nodup) :
    (rule.declared.map Prod.fst).Nodup := by
  have edges : rule.declared.map Prod.fst = rule.symbols.flatMap fun symbol =>
      symbol.attributes.entries.flatMap fun entry => entry.2.dependencies.keys := by
    simp [declared, OrderedMap.values, OrderedMap.keys, List.map_flatMap, List.flatMap_map]
  have source {place : Nat} {symbol : Symbol} (found : rule.symbols[place]? = some symbol)
      {entry : String × Attribute} (member : entry ∈ symbol.attributes.entries) {edge : Edge}
      (kept : edge ∈ entry.2.dependencies.keys) : edge.source = ⟨place, entry.1⟩ := by
    obtain ⟨positions, here⟩ := OrderedMap.exists_of_mem_keys kept
    exact (sound.placed place symbol found).sources entry member _ here
  rw [edges, List.nodup_flatMap]
  constructor
  · intro symbol member
    obtain ⟨place, found⟩ := List.mem_iff_getElem?.mp member
    rw [List.nodup_flatMap]
    refine ⟨once symbol member, ?_⟩
    have distinct := List.pairwise_map.mp (sound.placed place symbol found).distinct
    refine distinct.imp_of_mem fun {first second} here there different edge kept again => different ?_
    have same := (source found here kept).symm.trans (source found there again)
    exact congrArg Coordinate.name same
  · rw [List.pairwise_iff_getElem]
    intro i j left right less edge kept again
    obtain ⟨entry, member, here⟩ := List.mem_flatMap.mp kept
    obtain ⟨other, present, there⟩ := List.mem_flatMap.mp again
    have first := source (List.getElem?_eq_getElem left) member here
    have second := source (List.getElem?_eq_getElem right) present there
    have same : (i : Int) = j := congrArg Coordinate.symbolIndex (first.symm.trans second)
    omega

end Rule

namespace Equation

/-- The attributes of the equation belong to symbols of a rule with `symbolCount` symbols. -/
structure Fits (symbolCount : Nat) (equation : Equation) : Prop where
  target : ∀ target ∈ equation.target, ∃ place < symbolCount,
    target.symbolIndex = ((place : Nat) : Int)
  sources : ∀ source ∈ equation.sources, ∃ place < symbolCount,
    source.symbolIndex = ((place : Nat) : Int)

private theorem map_name_declareIn (equation : Equation) (symbols : List Symbol) :
    (equation.declareIn symbols).map Symbol.name = symbols.map Symbol.name := by
  unfold declareIn
  split
  · rfl
  · next target _ =>
    rw [← Symbol.map_name_modify (Symbol.name_declare target.name) target.symbolIndex.toNat symbols]
    generalize symbols.modify target.symbolIndex.toNat (Symbol.declare target.name) = declared
    induction equation.sources generalizing declared with
    | nil => rfl
    | cons source rest ih =>
      rw [List.foldl_cons, ih, Symbol.map_name_modify (Symbol.name_depend _)]

theorem map_name_foldl_declareIn (equations : List Equation) (symbols : List Symbol) :
    (equations.foldl (fun symbols equation => equation.declareIn symbols) symbols).map Symbol.name =
      symbols.map Symbol.name := by
  induction equations generalizing symbols with
  | nil => rfl
  | cons equation rest ih => rw [List.foldl_cons, ih, map_name_declareIn]

variable {equation : Equation} {symbols : List Symbol} {named : Coordinate → Prop}
  {edges : Edge → Prop}

def Names (equation : Equation) (c : Coordinate) : Prop :=
  ∃ target, equation.target = some target ∧ (c = target ∨ c ∈ equation.sources)

def Adds (equation : Equation) (edge : Edge) : Prop :=
  equation.target = some edge.target ∧ edge.source ∈ equation.sources

theorem names_iff {c : Coordinate} :
    equation.Names c ↔ equation.target = some c ∨ ∃ edge, equation.Adds edge ∧ edge.source = c := by
  constructor
  · rintro ⟨target, present, rfl | source⟩
    · exact Or.inl present
    · exact Or.inr ⟨⟨c, target⟩, ⟨present, source⟩, rfl⟩
  · rintro (present | ⟨edge, ⟨present, source⟩, rfl⟩)
    · exact ⟨c, present, Or.inl rfl⟩
    · exact ⟨edge.target, present, Or.inr source⟩

private theorem declares_sources {target : Coordinate} {sources : List Coordinate}
    (inside : ∀ source ∈ sources, ∃ place < symbols.length, source.symbolIndex = ((place : Nat) : Int))
    (declares : Rule.Declares ⟨symbols⟩ named edges) (known : named target) :
    Rule.Declares ⟨sources.foldl (fun symbols source => symbols.modify source.symbolIndex.toNat
        (Symbol.depend (.unresolved source target))) symbols⟩
      (fun c => named c ∨ c ∈ sources)
      (fun edge => edges edge ∨ edge.target = target ∧ edge.source ∈ sources) := by
  induction sources generalizing symbols named edges with
  | nil => exact declares.congr (by simp) (by simp)
  | cons source rest ih =>
    obtain ⟨place, below, index⟩ := inside source List.mem_cons_self
    have start : source.symbolIndex = (source.symbolIndex.toNat : Int) := by simp [index]
    have first := declares.depend (d := .unresolved source target) (by omega) start known
    have later := ih (fun other member => by
      simpa using inside other (List.mem_cons_of_mem _ member)) first (Or.inr known)
    refine later.congr (fun c => ?_) fun edge => ?_
    · simp only [Dependency.unresolved, List.mem_cons]
      tauto
    · obtain ⟨start, goal⟩ := edge
      simp only [Dependency.unresolved, List.mem_cons, Edge.mk.injEq]
      tauto

private theorem declares_declareIn (fits : equation.Fits symbols.length)
    (declares : Rule.Declares ⟨symbols⟩ named edges) : Rule.Declares ⟨equation.declareIn symbols⟩
      (fun c => named c ∨ equation.Names c) (fun edge => edges edge ∨ equation.Adds edge) := by
  unfold declareIn
  split
  · next absent => exact declares.congr (by simp [Names, absent]) (by simp [Adds, absent])
  · next target present =>
    obtain ⟨place, below, index⟩ := fits.target target present
    have start : target = ⟨target.symbolIndex.toNat, target.name⟩ := by
      rw [index, Int.toNat_natCast, ← index]
    have first := declares.declare (show target.symbolIndex.toNat < symbols.length by omega) target.name
    have added := declares_sources (fun source member => by
      simpa using fits.sources source member) first (Or.inl start)
    refine added.congr (fun c => ?_) fun edge => ?_
    · rw [← start]
      simp only [Names, present, Option.some.injEq, exists_eq_left']
      tauto
    · simp only [Adds, present, Option.some.injEq, eq_comm (a := edge.target)]

/-- All equations of a row: nothing that one of them declares is lost with the others. -/
theorem declares_foldl {equations : List Equation}
    (fits : ∀ equation ∈ equations, equation.Fits symbols.length)
    (declares : Rule.Declares ⟨symbols⟩ named edges) :
    Rule.Declares ⟨equations.foldl (fun symbols equation => equation.declareIn symbols) symbols⟩
      (fun c => named c ∨ ∃ equation ∈ equations, equation.Names c)
      (fun edge => edges edge ∨ ∃ equation ∈ equations, equation.Adds edge) := by
  induction equations generalizing symbols named edges with
  | nil => exact declares.congr (by simp) (by simp)
  | cons equation rest ih =>
    have length : (equation.declareIn symbols).length = symbols.length := by
      simpa using congrArg List.length (map_name_declareIn equation symbols)
    have first := declares_declareIn (fits equation List.mem_cons_self) declares
    have later := ih (fun other member => by
      rw [length]
      exact fits other (List.mem_cons_of_mem _ member)) first
    exact later.congr (fun c => by simp [or_assoc]) fun edge => by simp [or_assoc]

end Equation

namespace RowDraft

private theorem declares_bare (names : List String) :
    Rule.Declares ⟨names.map fun name => (⟨name, ∅⟩ : Symbol)⟩ (fun _ => False) (fun _ => False) := by
  have bare {place : Nat} {symbol : Symbol}
      (found : (names.map fun name => (⟨name, ∅⟩ : Symbol))[place]? = some symbol) :
      symbol.attributes = ∅ := by
    obtain ⟨name, _, rfl⟩ := List.mem_map.mp (List.mem_of_getElem? found)
    rfl
  have edgeless (edge : Edge) : edge ∉ (Rule.mk (names.map (⟨·, ∅⟩))).declared.map Prod.fst := by
    rw [Rule.mem_edges]
    rintro ⟨place, symbol, found, entry, present, _⟩
    rw [bare found] at present
    cases present
  refine ⟨⟨fun place symbol found => ?_, fun d member => ?_⟩, fun symbol member entry present => ?_,
    fun c => iff_false_intro ?_, fun edge => iff_false_intro (edgeless edge)⟩
  · constructor <;> simp [bare found]
  · exact absurd (List.mem_map_of_mem member) (edgeless d.1)
  · obtain ⟨place, found⟩ := List.mem_iff_getElem?.mp member
    rw [bare found] at present
    cases present
  · rintro ⟨place, symbol, found, _, present⟩
    rw [bare found] at present
    cases present

theorem declares_ofEquations {names : List String} {equations : List Equation} {rule : Rule}
    (fits : ∀ equation ∈ equations, equation.Fits names.length)
    (kept : (ofEquations names equations).rule = some rule) :
    rule.symbols.map Symbol.name = names ∧
      rule.Declares (fun c => ∃ equation ∈ equations, equation.Names c)
        (fun edge => ∃ equation ∈ equations, equation.Adds edge) := by
  obtain rfl := Option.some.inj kept
  have same : (equations.foldl (fun symbols equation => equation.declareIn symbols)
      (names.map fun name => (⟨name, ∅⟩ : Symbol))).map Symbol.name = names := by
    rw [Equation.map_name_foldl_declareIn, List.map_map]
    exact List.map_id names
  refine ⟨same, ?_⟩
  have declares := Equation.declares_foldl (by simpa using fits) (declares_bare names)
  exact declares.congr (by simp) (by simp)

end RowDraft
end AttributeGrammar
