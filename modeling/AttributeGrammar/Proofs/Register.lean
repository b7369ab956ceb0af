import AttributeGrammar.OrderedMap.Register
import AttributeGrammar.Proofs.OrderedMap
import Mathlib

/-! Registers and ordered maps to which the same was done.
However additions and sortings follow each other, the list of a register and its table hold the same
keys, so no look-up by place comes to a key without a value. Every look-up answers as the ordered map
does, whose entries each addition and each sorting turns into the next.
-/
namespace AttributeGrammar

namespace Label

def key : Label → Int ⊕ₗ String
  | number value => Sum.inlₗ value
  | text value => Sum.inrₗ value

theorem key_injective : Function.Injective key := by
  intro left right same
  cases left <;> cases right <;> simp_all [key]

theorem inOrder_iff {left right : Label} : left.inOrder right = true ↔ left.key ≤ right.key := by
  cases left <;> cases right <;> simp [inOrder, Text.inOrder, key]

theorem linear_inOrder : IsLinearOrder Label fun left right => left.inOrder right = true :=
  Sequence.linear_of_key key_injective inOrder_iff

private theorem ofOneKind_iff {keys : List Label} :
    ofOneKind keys = true ↔ ∃ kind, ∀ key ∈ keys, key.isNumber = kind := by
  simp [ofOneKind, or_comm]

end Label

inductive Edit (K V : Type) where
  | add (key : K) (value : V)
  | sort
deriving DecidableEq, Repr

variable {K V : Type} [DecidableEq K]

/-- What an edit makes of a list of entries with distinct keys. -/
inductive Edit.Turns (inOrder : K → K → Bool) :
    Edit K V → List (K × V) → List (K × V) → Prop
  | append {key : K} {value : V} {listed : List (K × V)} (absent : key ∉ listed.map Prod.fst) :
      Turns inOrder (.add key value) listed (listed ++ [(key, value)])
  | replace {key : K} {value : V} {listed : List (K × V)} (present : key ∈ listed.map Prod.fst) :
      Turns inOrder (.add key value) listed
        (listed.map fun entry => if entry.1 = key then (key, value) else entry)
  | sort {listed sorted : List (K × V)} (perm : sorted.Perm listed)
      (ascending : (sorted.map Prod.fst).Pairwise fun left right =>
        inOrder left right = true ∧ left ≠ right) :
      Turns inOrder .sort listed sorted

variable {inOrder : K → K → Bool}

namespace OrderedMap

def edit (inOrder : K → K → Bool) (map : OrderedMap K V) : Edit K V → OrderedMap K V
  | .add key value => map.insert key value
  | .sort => map.sort inOrder

def edited (inOrder : K → K → Bool) (edits : List (Edit K V)) : OrderedMap K V :=
  edits.foldl (edit inOrder) ∅

private theorem turns_edit (linear : IsLinearOrder K fun left right => inOrder left right = true)
    {map : OrderedMap K V} (distinct : map.keys.Nodup) (change : Edit K V) :
    change.Turns inOrder map.entries (map.edit inOrder change).entries := by
  cases change with
  | add key value =>
    by_cases present : key ∈ map.keys
    · rw [edit, entries_insert_of_mem distinct present]
      exact .replace present
    · rw [edit, entries_insert_of_not_mem present]
      exact .append present
  | sort => exact .sort (List.mergeSort_perm _ _) (pairwise_keys_sort linear distinct)

end OrderedMap

namespace Register

def edit (inOrder : K → K → Bool) (register : Register K V) : Edit K V → Register K V
  | .add key value => register.insert key value
  | .sort => register.sort inOrder

def edited (inOrder : K → K → Bool) (edits : List (Edit K V)) : Register K V :=
  edits.foldl (edit inOrder) ∅

/-- The list has the keys of the map in their order, and the table its values in any order. -/
structure Shows (register : Register K V) (map : OrderedMap K V) : Prop where
  keys : register.keys = map.keys
  distinct : map.keys.Nodup
  found : ∀ key, register.table.get? key = map.get? key

/-- The list and the table have the same keys, each once, and all look-ups answer from one list of
entries. -/
structure Lists (register : Register K V) (listed : List (K × V)) : Prop where
  keys : register.keys = listed.map Prod.fst
  distinct : register.keys.Nodup
  tabled : ∀ key, key ∈ register.table.keys ↔ key ∈ register.keys
  values : register.values = .ok (listed.map Prod.snd)
  entries : register.entries = .ok listed
  size : register.size = listed.length
  fold : ∀ {Result : Type} (visit : Result → K → Result) (start : Result),
    register.fold visit start = (listed.map Prod.fst).foldl visit start
  contains : ∀ key, register.contains key = true ↔ key ∈ register.keys
  present : ∀ key, (register.get? key).isSome = register.contains key ∧
    (register.indexOf? key).isSome = register.contains key
  get : ∀ key value, register.get? key = some value ↔ (key, value) ∈ listed
  index : ∀ key place, register.indexOf? key = some place ↔ register.keys[place]? = some key
  valueAt : ∀ index, register.valueAt index =
    match Sequence.item? listed index with
    | some entry => .ok entry.2
    | none => .error (.noKey index)
  valueAtIndex : ∀ key ∈ register.keys, ∃ place value, register.indexOf? key = some place ∧
    register.get? key = some value ∧ register.valueAt place = .ok value

namespace Shows
variable {register : Register K V} {map : OrderedMap K V}

/-! ### Edits -/

theorem empty : (∅ : Register K V).Shows ∅ := ⟨rfl, List.nodup_nil, fun _ => rfl⟩

theorem contains_iff (shows : register.Shows map) {key : K} :
    register.contains key = true ↔ key ∈ map.keys := by
  rw [contains, OrderedMap.contains_iff, ← OrderedMap.isSome_get?, shows.found,
    OrderedMap.isSome_get?]

theorem insert (shows : register.Shows map) (key : K) (value : V) :
    (register.insert key value).Shows (map.insert key value) where
  keys := by
    rw [OrderedMap.keys_insert, Register.insert]
    simp only [shows.contains_iff, shows.keys]
  distinct := OrderedMap.nodup_keys_insert shows.distinct key value
  found other := by
    rw [Register.insert, OrderedMap.get?_insert, OrderedMap.get?_insert, shows.found]

theorem sort (shows : register.Shows map) (inOrder : K → K → Bool) :
    (register.sort inOrder).Shows (map.sort inOrder) where
  keys := by rw [OrderedMap.keys_sort, Register.sort, shows.keys]
  distinct := OrderedMap.nodup_keys_sort shows.distinct inOrder
  found key := by rw [OrderedMap.get?_sort shows.distinct, Register.sort, shows.found]

private theorem edit (shows : register.Shows map) (change : Edit K V) :
    (register.edit inOrder change).Shows (map.edit inOrder change) := by
  cases change with
  | add key value => exact shows.insert key value
  | sort => exact shows.sort inOrder

private theorem foldl_edit (shows : register.Shows map) (edits : List (Edit K V)) :
    (edits.foldl (Register.edit inOrder) register).Shows
      (edits.foldl (OrderedMap.edit inOrder) map) := by
  -- each edit keeps `Shows`, so the two may start anywhere
  induction edits generalizing register map with
  | nil => exact shows
  | cons change rest ih => exact ih (shows.edit change)

/-! ### Look-ups -/

theorem value (shows : register.Shows map) {entry : K × V} (member : entry ∈ map.entries) :
    register.value entry.1 = .ok entry.2 := by
  rw [Register.value, shows.found, OrderedMap.get?_of_mem shows.distinct member]

private theorem mapM_keys (shows : register.Shows map) {Seen : Type} {look : K → Except (Gap K) Seen}
    {seen : K × V → Seen} (each : ∀ entry ∈ map.entries, look entry.1 = .ok (seen entry)) :
    register.keys.mapM look = .ok (map.entries.map seen) := by
  rw [shows.keys, OrderedMap.keys]
  -- the look-ups stay those of the whole register while the entries run out
  generalize map.entries = entries at each
  induction entries with
  | nil => rfl
  | cons entry rest ih =>
    obtain ⟨here, later⟩ := List.forall_mem_cons.mp each
    rw [List.map_cons, List.mapM_cons, here, ih later]
    rfl

theorem values (shows : register.Shows map) : register.values = .ok map.values :=
  shows.mapM_keys fun _ member => shows.value member

theorem entries (shows : register.Shows map) : register.entries = .ok map.entries := by
  have pairs : register.entries = .ok (map.entries.map id) := shows.mapM_keys fun entry member => by
    rw [shows.value member]
    rfl
  rwa [List.map_id] at pairs

theorem indexOf? (shows : register.Shows map) (key : K) :
    register.indexOf? key = map.indexOf? key := by
  rw [Register.indexOf?, shows.keys, OrderedMap.indexOf?]

theorem present (shows : register.Shows map) (key : K) :
    (register.get? key).isSome = register.contains key ∧
      (register.indexOf? key).isSome = register.contains key := by
  constructor
  · rw [Bool.eq_iff_iff, shows.contains_iff, Register.get?, shows.found]
    exact OrderedMap.isSome_get?
  · rw [Bool.eq_iff_iff, shows.contains_iff, shows.indexOf?]
    exact OrderedMap.isSome_indexOf?

theorem valueAt (shows : register.Shows map) (index : Int) : register.valueAt index =
    match map.entryAt? index with
    | some entry => .ok entry.2
    | none => .error (.noKey index) := by
  rw [Register.valueAt, shows.keys, OrderedMap.keys, Sequence.item?_map, OrderedMap.entryAt?]
  cases found : Sequence.item? map.entries index with
  | none => rfl
  | some entry => exact shows.value (Sequence.mem_of_item? found)

private theorem valueAt_index (shows : register.Shows map) {key : K} (listed : key ∈ register.keys) :
    ∃ place value, register.indexOf? key = some place ∧ register.get? key = some value ∧
      register.valueAt place = .ok value := by
  rw [shows.keys] at listed
  obtain ⟨place, indexed⟩ := OrderedMap.exists_indexOf? listed
  have here := OrderedMap.getElem?_of_indexOf? indexed
  rw [OrderedMap.keys, List.getElem?_map, Option.map_eq_some_iff] at here
  obtain ⟨⟨_, value⟩, here, rfl⟩ := here
  refine ⟨place, value, (shows.indexOf? _).trans indexed, ?_, ?_⟩
  · rw [Register.get?, shows.found]
    exact OrderedMap.get?_of_mem shows.distinct (List.mem_of_getElem? here)
  · rw [shows.valueAt, OrderedMap.entryAt?, Sequence.item?_ofNat, here]

theorem lists (shows : register.Shows map) : register.Lists map.entries where
  keys := shows.keys
  distinct := shows.keys ▸ shows.distinct
  tabled key := by
    rw [← OrderedMap.contains_iff, shows.keys]
    exact shows.contains_iff
  values := shows.values
  entries := shows.entries
  size := by rw [Register.size, shows.keys, OrderedMap.keys, List.length_map]
  fold visit start := by rw [Register.fold, shows.keys, OrderedMap.keys]
  contains key := by
    rw [shows.keys]
    exact shows.contains_iff
  present := shows.present
  get key value := by rw [Register.get?, shows.found, OrderedMap.get?_eq_some_iff shows.distinct]
  index key place := by
    rw [shows.indexOf?, shows.keys, OrderedMap.indexOf?_eq_some_iff shows.distinct]
  valueAt := shows.valueAt
  valueAtIndex _ := shows.valueAt_index

/-- Labels are sorted in both or, where both kinds are there, in neither. -/
theorem sortLabels {register : Register Label V} {map : OrderedMap Label V}
    (shows : register.Shows map) :
    (∃ kind, ∀ key ∈ register.keys, key.isNumber = kind) ∧
        register.sortLabels = .ok (register.sort Label.inOrder) ∧
        map.sortLabels = .ok (map.sort Label.inOrder) ∨
      (¬ ∃ kind, ∀ key ∈ register.keys, key.isNumber = kind) ∧
        register.sortLabels = .error .notComparable ∧ map.sortLabels = .error .notComparable := by
  rw [← Label.ofOneKind_iff, Register.sortLabels, OrderedMap.sortLabels, ← shows.keys]
  by_cases one : Label.ofOneKind register.keys = true
  · exact Or.inl ⟨one, if_pos one, if_pos one⟩
  · exact Or.inr ⟨one, if_neg one, if_neg one⟩

end Shows

/-- After any additions and sortings a register lists the entries of the ordered map to which the same
was done. One more edit appends an entry, replaces the value of one in its place, or sorts them. -/
theorem lists_edited (linear : IsLinearOrder K fun left right => inOrder left right = true)
    (edits : List (Edit K V)) : ∃ listed, (OrderedMap.edited inOrder edits).entries = listed ∧
      (edited inOrder edits).Lists listed ∧
      ∀ change, ∃ next, Edit.Turns inOrder change listed next ∧
        ((edited inOrder edits).edit inOrder change).Lists next := by
  have shows : (edited inOrder edits).Shows (OrderedMap.edited inOrder edits) :=
    Shows.empty.foldl_edit edits
  refine ⟨_, rfl, shows.lists, fun change => ⟨_, ?_, (shows.edit change).lists⟩⟩
  exact OrderedMap.turns_edit linear shows.distinct change

/-- The key `b` is added again after the sorting, when it stands in another place of the list than of
the table. -/
def addedAgain : List (Edit Label Nat) :=
  [.add (.text "b") 1, .add (.text "a") 2, .sort, .add (.text "b") 3, .add (.text "B") 4]

theorem lists_edited_addedAgain :
    IsLinearOrder Label (fun left right => Label.inOrder left right = true) ∧
      edited Label.inOrder addedAgain =
        ⟨[.text "a", .text "b", .text "B"], ⟨[(.text "b", 3), (.text "a", 2), (.text "B", 4)]⟩⟩ ∧
      (edited Label.inOrder addedAgain).Lists [(.text "a", 2), (.text "b", 3), (.text "B", 4)] ∧
      ∃ sorted, (edited Label.inOrder addedAgain).sortLabels = .ok sorted ∧
        sorted.Lists [(.text "B", 4), (.text "a", 2), (.text "b", 3)] := by
  obtain ⟨listed, same, lists, turns⟩ := lists_edited (V := Nat) Label.linear_inOrder addedAgain
  obtain ⟨next, _, sorted⟩ := turns .sort
  obtain rfl : [(.text "a", 2), (.text "b", 3), (.text "B", 4)] = listed := by
    rw [← same]
    cbv
  have read : ((edited Label.inOrder addedAgain).edit Label.inOrder .sort).entries =
      .ok [(.text "B", 4), (.text "a", 2), (.text "b", 3)] := by cbv
  obtain rfl := Except.ok.inj (read.symm.trans sorted.entries)
  exact ⟨Label.linear_inOrder, by cbv, lists, _, by cbv, sorted⟩

end Register
end AttributeGrammar
