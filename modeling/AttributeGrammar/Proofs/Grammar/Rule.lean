import AttributeGrammar.Grammar.Basic
import AttributeGrammar.Proofs.OrderedMap
import AttributeGrammar.Proofs.Sequence

/-! Rules whose dependencies are where they belong.
A dependency is kept with the attribute it starts from, and leads to an attribute of the same rule.
Declaring attributes and dependencies keeps that, and so does everything that gives a rule more
attributes without new edges.
-/
namespace AttributeGrammar

namespace Symbol

/-- As the symbol at `place` of a rule, it has every attribute once, and each with its own
dependencies. -/
structure PlacedAt (place : Nat) (symbol : Symbol) : Prop where
  distinct : symbol.attributes.keys.Nodup
  sources : ∀ entry ∈ symbol.attributes.entries, ∀ d ∈ entry.2.dependencies.entries,
    d.1.source = ⟨place, entry.1⟩

/-- The symbol afterwards has the attributes it had, perhaps more, and no edge it did not have. -/
structure Extends (before after : Symbol) : Prop where
  name : after.name = before.name
  keys : ∀ name ∈ before.attributes.keys, name ∈ after.attributes.keys
  distinct : before.attributes.keys.Nodup → after.attributes.keys.Nodup
  edges : ∀ entry ∈ after.attributes.entries, ∀ d ∈ entry.2.dependencies.entries,
    ∃ old ∈ before.attributes.entries, old.1 = entry.1 ∧
      ∃ former ∈ old.2.dependencies.entries, former.1 = d.1

theorem Extends.placedAt {before after : Symbol} (extension : Extends before after) {place : Nat}
    (placed : before.PlacedAt place) : after.PlacedAt place := by
  refine ⟨extension.distinct placed.distinct, fun entry member d kept => ?_⟩
  obtain ⟨old, present, name, former, was, edge⟩ := extension.edges entry member d kept
  have source := placed.sources old present former was
  rw [← edge, source, name]

theorem mem_keys_declare {symbol : Symbol} {name other : String} :
    other ∈ (symbol.declare name).attributes.keys ↔
      other = name ∨ other ∈ symbol.attributes.keys := by
  unfold declare
  split
  · next present =>
    have here := OrderedMap.contains_iff.mp present
    exact ⟨Or.inr, fun either => either.elim (fun same => same ▸ here) id⟩
  · exact OrderedMap.mem_keys_insert

theorem mem_declare {symbol : Symbol} {name : String} {entry : String × Attribute}
    (member : entry ∈ (symbol.declare name).attributes.entries) :
    entry = (name, {}) ∨ entry ∈ symbol.attributes.entries := by
  unfold declare at member
  split at member
  · exact Or.inr member
  · exact OrderedMap.mem_insert member

theorem PlacedAt.declare {symbol : Symbol} {place : Nat} (placed : symbol.PlacedAt place)
    (name : String) : (symbol.declare name).PlacedAt place := by
  constructor
  · unfold Symbol.declare
    split
    · exact placed.distinct
    · exact OrderedMap.nodup_keys_insert placed.distinct name {}
  · intro entry member d kept
    rcases mem_declare member with new | old
    · subst new
      cases kept
    · exact placed.sources entry old d kept

theorem mem_keys_depend {symbol : Symbol} {d : Dependency} {other : String} :
    other ∈ (symbol.depend d).attributes.keys ↔
      other = d.source.name ∨ other ∈ symbol.attributes.keys :=
  OrderedMap.mem_keys_insert

theorem mem_depend {symbol : Symbol} {d kept : Dependency} {entry : String × Attribute}
    (member : entry ∈ (symbol.depend d).attributes.entries)
    (here : kept ∈ entry.2.dependencies.entries) :
    (entry.1 = d.source.name ∧ kept = d) ∨
      ∃ old ∈ symbol.attributes.entries, old.1 = entry.1 ∧ kept ∈ old.2.dependencies.entries := by
  rcases OrderedMap.mem_insert member with written | old
  · subst written
    rcases OrderedMap.mem_insert here with new | before
    · exact Or.inl ⟨rfl, new⟩
    · right
      cases found : symbol.attributes.get? d.source.name with
      | none => simp [found] at before
      | some data =>
        rw [found] at before
        exact ⟨(d.source.name, data), OrderedMap.mem_of_get? found, rfl, before⟩
  · exact Or.inr ⟨entry, old, rfl, here⟩

theorem PlacedAt.depend {symbol : Symbol} {place : Nat} (placed : symbol.PlacedAt place)
    {d : Dependency} (start : d.source.symbolIndex = (place : Int)) :
    (symbol.depend d).PlacedAt place := by
  refine ⟨OrderedMap.nodup_keys_insert placed.distinct _ _, fun entry member kept here => ?_⟩
  rcases mem_depend member here with ⟨name, rfl⟩ | ⟨old, present, name, was⟩
  · rw [name, ← start]
    rfl
  · rw [← name]
    exact placed.sources old present kept was

end Symbol

namespace Rule

def Holds (rule : Rule) (c : Coordinate) : Prop :=
  ∃ place symbol, rule.symbols[place]? = some symbol ∧ c.symbolIndex = ((place : Nat) : Int) ∧
    c.name ∈ symbol.attributes.keys

/-- The attribute `c` is the one at `position` among those of its symbol. -/
def PlacesAt (rule : Rule) (c : Coordinate) (position : Nat) : Prop :=
  ∃ (place : Nat) (symbol : Symbol), rule.symbols[place]? = some symbol ∧ c.symbolIndex = place ∧
    symbol.attributes.keys[position]? = some c.name

/-- Both ends are resolved, and to the places where the rule has them. -/
def Resolves (rule : Rule) (d : Dependency) : Prop :=
  ∃ source target : Nat, d.2 = ⟨some source, some target⟩ ∧ rule.PlacesAt d.1.source source ∧
    rule.PlacesAt d.1.target target

theorem PlacesAt.holds {rule : Rule} {c : Coordinate} {position : Nat}
    (placed : rule.PlacesAt c position) : rule.Holds c := by
  obtain ⟨place, symbol, found, index, name⟩ := placed
  exact ⟨place, symbol, found, index, List.mem_of_getElem? name⟩

theorem Resolves.holds {rule : Rule} {d : Dependency} (resolves : rule.Resolves d) :
    rule.Holds d.1.source ∧ rule.Holds d.1.target := by
  obtain ⟨_, _, _, source, target⟩ := resolves
  exact ⟨source.holds, target.holds⟩

structure Sound (rule : Rule) : Prop where
  placed : ∀ (place : Nat) (symbol : Symbol), rule.symbols[place]? = some symbol →
    symbol.PlacedAt place
  targets : ∀ d ∈ rule.declared, rule.Holds d.1.target

theorem mem_declared {rule : Rule} {d : Dependency} :
    d ∈ rule.declared ↔ ∃ (place : Nat) (symbol : Symbol), rule.symbols[place]? = some symbol ∧
      ∃ entry ∈ symbol.attributes.entries, d ∈ entry.2.dependencies.entries := by
  simp only [declared, OrderedMap.values, List.mem_flatMap, List.mem_map]
  constructor
  · rintro ⟨symbol, member, _, ⟨entry, present, rfl⟩, kept⟩
    obtain ⟨place, found⟩ := List.mem_iff_getElem?.mp member
    exact ⟨place, symbol, found, entry, present, kept⟩
  · rintro ⟨place, symbol, found, entry, present, kept⟩
    exact ⟨symbol, List.mem_of_getElem? found, entry.2, ⟨entry, present, rfl⟩, kept⟩

theorem Holds.extended {before after : Rule} {c : Coordinate} (holds : before.Holds c)
    (extension : List.Forall₂ Symbol.Extends before.symbols after.symbols) : after.Holds c := by
  obtain ⟨place, symbol, found, index, member⟩ := holds
  obtain ⟨new, present, grown⟩ := Sequence.after_of_getElem? extension found
  exact ⟨place, new, present, index, grown.keys c.name member⟩

theorem Sound.extended {before after : Rule} (sound : before.Sound)
    (extension : List.Forall₂ Symbol.Extends before.symbols after.symbols) : after.Sound := by
  refine ⟨fun place symbol found => ?_, fun d member => ?_⟩
  · obtain ⟨old, present, grown⟩ := Sequence.before_of_getElem? extension found
    exact grown.placedAt (sound.placed place old present)
  · obtain ⟨place, symbol, found, entry, present, kept⟩ := mem_declared.mp member
    obtain ⟨old, there, grown⟩ := Sequence.before_of_getElem? extension found
    obtain ⟨source, was, _, former, declared, edge⟩ := grown.edges entry present d kept
    have target := sound.targets former (mem_declared.mpr ⟨place, old, there, source, was, declared⟩)
    rw [← edge]
    exact target.extended extension

theorem Holds.modify {symbols : List Symbol} {c : Coordinate} (holds : Rule.Holds ⟨symbols⟩ c)
    (place : Nat) {change : Symbol → Symbol}
    (grows : ∀ symbol : Symbol, ∀ name ∈ symbol.attributes.keys,
      name ∈ (change symbol).attributes.keys) :
    Rule.Holds ⟨symbols.modify place change⟩ c := by
  obtain ⟨here, symbol, found, index, member⟩ := holds
  change symbols[here]? = some symbol at found
  by_cases same : place = here
  · subst same
    exact ⟨place, change symbol, by simp [found], index, grows symbol c.name member⟩
  · exact ⟨here, symbol, by simp [same, found], index, member⟩

/-- Changing one symbol of a sound rule leaves it sound, if the attributes stay and every new
dependency leads to an attribute of the rule. -/
theorem Sound.modify {symbols : List Symbol} (sound : Rule.Sound ⟨symbols⟩) (place : Nat)
    {change : Symbol → Symbol}
    (grows : ∀ symbol : Symbol, ∀ name ∈ symbol.attributes.keys,
      name ∈ (change symbol).attributes.keys)
    (placed : ∀ symbol : Symbol, symbol.PlacedAt place → (change symbol).PlacedAt place)
    (targets : ∀ symbol : Symbol, ∀ entry ∈ (change symbol).attributes.entries,
      ∀ d ∈ entry.2.dependencies.entries, Rule.Holds ⟨symbols⟩ d.1.target ∨
        ∃ old ∈ symbol.attributes.entries, d ∈ old.2.dependencies.entries) :
    Rule.Sound ⟨symbols.modify place change⟩ := by
  have former (d : Dependency) (here : Nat) (symbol : Symbol) (found : symbols[here]? = some symbol)
      (kept : ∃ entry ∈ symbol.attributes.entries, d ∈ entry.2.dependencies.entries) :
      Rule.Holds ⟨symbols⟩ d.1.target :=
    sound.targets d (mem_declared.mpr ⟨here, symbol, found, kept⟩)
  constructor
  · intro here symbol found
    change (symbols.modify place change)[here]? = some symbol at found
    by_cases same : place = here
    · subst same
      obtain ⟨old, present, rfl⟩ : ∃ old, symbols[place]? = some old ∧ change old = symbol := by
        simpa using found
      exact placed old (sound.placed place old present)
    · rw [List.getElem?_modify_ne change symbols same] at found
      exact sound.placed here symbol found
  · intro d member
    obtain ⟨here, symbol, found, entry, present, kept⟩ := mem_declared.mp member
    change (symbols.modify place change)[here]? = some symbol at found
    apply Holds.modify _ place grows
    by_cases same : place = here
    · subst same
      obtain ⟨old, there, rfl⟩ : ∃ old, symbols[place]? = some old ∧ change old = symbol := by
        simpa using found
      exact (targets old entry present d kept).elim id (former d place old there)
    · rw [List.getElem?_modify_ne change symbols same] at found
      exact former d here symbol found ⟨entry, present, kept⟩

theorem Sound.declare {symbols : List Symbol} (sound : Rule.Sound ⟨symbols⟩) (place : Nat)
    (name : String) : Rule.Sound ⟨symbols.modify place (Symbol.declare name)⟩ := by
  apply sound.modify place
  · exact fun symbol other member => Symbol.mem_keys_declare.mpr (Or.inr member)
  · exact fun symbol placed => placed.declare name
  · intro symbol entry member d kept
    rcases Symbol.mem_declare member with rfl | old
    · cases kept
    · exact Or.inr ⟨entry, old, kept⟩

theorem Sound.depend {symbols : List Symbol} (sound : Rule.Sound ⟨symbols⟩) {place : Nat}
    {d : Dependency} (start : d.1.source.symbolIndex = (place : Int))
    (target : Rule.Holds ⟨symbols⟩ d.1.target) :
    Rule.Sound ⟨symbols.modify place (Symbol.depend d)⟩ := by
  apply sound.modify place
  · exact fun symbol other member => Symbol.mem_keys_depend.mpr (Or.inr member)
  · exact fun symbol placed => placed.depend start
  · intro symbol entry member kept here
    rcases Symbol.mem_depend member here with ⟨_, same⟩ | ⟨old, present, _, was⟩
    · exact Or.inl (same ▸ target)
    · exact Or.inr ⟨old, present, was⟩

end Rule
end AttributeGrammar
