import AttributeGrammar.Dependency
import AttributeGrammar.Proofs.OrderedMap
import Mathlib.Data.Prod.Lex
import Mathlib.Data.String.Basic
import Mathlib.Order.Basic

/-! The order of edges, and sets of relations.
Edges are in the order of their sources, and those from one source in the order of their targets. Which
edges a set of relations has, and in which order, depends on the edges written to it alone.
-/
namespace AttributeGrammar

namespace Coordinate

def key (c : Coordinate) : Int ×ₗ String := toLex (c.symbolIndex, c.name)

theorem key_injective : Function.Injective key := by
  intro left right same
  have pair := toLex.injective same
  cases left
  cases right
  simpa using pair

theorem precedes_iff {left right : Coordinate} :
    left.precedes right = true ↔ left.key < right.key := by
  simp [precedes, key, Prod.Lex.toLex_lt_toLex]

end Coordinate

namespace Edge

/-- Edges are in order of their sources, and from one source of their targets. -/
def key (edge : Edge) : (Int ×ₗ String) ×ₗ (Int ×ₗ String) := toLex (edge.source.key, edge.target.key)

theorem key_injective : Function.Injective key := by
  intro left right same
  have pair := Prod.mk.inj (toLex.injective same)
  cases left
  cases right
  rw [Edge.mk.injEq]
  exact ⟨Coordinate.key_injective pair.1, Coordinate.key_injective pair.2⟩

theorem inOrder_iff {left right : Edge} : left.inOrder right = true ↔ left.key ≤ right.key := by
  rw [inOrder, Bool.not_eq_true', ← Bool.not_eq_true, ← not_lt, not_iff_not]
  simp [precedes, key, Prod.Lex.toLex_lt_toLex, Coordinate.precedes_iff,
    Coordinate.key_injective.eq_iff]

theorem linear_inOrder : IsLinearOrder Edge fun left right => left.inOrder right = true :=
  Sequence.linear_of_key key_injective inOrder_iff

end Edge

namespace Relations

theorem pairwise_sortedEntries {relations : Relations} (distinct : relations.keys.Nodup) :
    (sortedEntries relations).Pairwise fun earlier later => earlier.1.key < later.1.key := by
  refine (List.pairwise_map.mp (OrderedMap.pairwise_keys_sort Edge.linear_inOrder distinct)).imp
    fun ascending => ?_
  obtain ⟨before, other⟩ := ascending
  exact lt_of_le_of_ne (Edge.inOrder_iff.mp before) fun same => other (Edge.key_injective same)

theorem keys_ofList_congr {dependencies others : List Dependency}
    (same : dependencies.map Prod.fst = others.map Prod.fst) :
    (ofList dependencies).keys = (ofList others).keys :=
  OrderedMap.keys_insertAll_congr rfl same

theorem nodup_keys_ofList (dependencies : List Dependency) : (ofList dependencies).keys.Nodup :=
  OrderedMap.nodup_keys_insertAll (show (∅ : Relations).keys.Nodup by simp) _

theorem entries_ofList {dependencies : List Dependency}
    (distinct : (dependencies.map Prod.fst).Nodup) : (ofList dependencies).entries = dependencies :=
  OrderedMap.entries_insertAll (by simpa using distinct)

end Relations

namespace Dependency

private theorem map_firstsFrom_congr {seen : OrderedMap Coordinate (List Coordinate)}
    {dependencies others : List Dependency}
    (same : dependencies.map Prod.fst = others.map Prod.fst) :
    (firstsFrom seen dependencies).map Prod.fst = (firstsFrom seen others).map Prod.fst := by
  induction dependencies generalizing seen others with
  | nil =>
    obtain rfl : others = [] := by simpa using same.symm
    rfl
  | cons d rest ih =>
    obtain ⟨⟨edge, positions⟩, later, rfl, here, there⟩ := List.map_eq_cons_iff.mp same.symm
    obtain rfl : edge = d.1 := here
    simp only [firstsFrom]
    split
    · exact ih there.symm
    · rw [List.map_cons, List.map_cons, ih there.symm]

/-- Which edges come first does not depend on the places of their ends. -/
theorem map_firsts_congr {dependencies others : List Dependency}
    (same : dependencies.map Prod.fst = others.map Prod.fst) :
    (firsts dependencies).map Prod.fst = (firsts others).map Prod.fst :=
  map_firstsFrom_congr same

end Dependency
end AttributeGrammar
