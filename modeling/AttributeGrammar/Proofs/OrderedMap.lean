import AttributeGrammar.OrderedMap
import AttributeGrammar.Proofs.Sequence
import Mathlib.Data.List.Nodup

/-! The keys and the look-ups of ordered maps.
Writing a key adds it behind the others unless it is there, and changes no other look-up. Sorting changes
the places of the keys alone.
-/
namespace AttributeGrammar.OrderedMap
variable {K V : Type}

@[simp] theorem keys_empty : (∅ : OrderedMap K V).keys = [] := rfl

@[simp] theorem entries_empty : (∅ : OrderedMap K V).entries = [] := rfl

theorem mem_keys_of_mem {map : OrderedMap K V} {entry : K × V} (member : entry ∈ map.entries) :
    entry.1 ∈ map.keys :=
  List.mem_map_of_mem member

theorem exists_of_mem_keys {map : OrderedMap K V} {key : K} (member : key ∈ map.keys) :
    ∃ value, (key, value) ∈ map.entries := by
  obtain ⟨⟨_, value⟩, present, rfl⟩ := List.mem_map.mp member
  exact ⟨value, present⟩

theorem perm_keys_sort (inOrder : K → K → Bool) (map : OrderedMap K V) :
    (map.sort inOrder).keys.Perm map.keys :=
  (List.mergeSort_perm _ _).map Prod.fst

theorem keys_sort (inOrder : K → K → Bool) (map : OrderedMap K V) :
    (map.sort inOrder).keys = map.keys.mergeSort inOrder :=
  List.map_mergeSort fun _ _ _ _ => rfl

theorem nodup_keys_sort {map : OrderedMap K V} (distinct : map.keys.Nodup)
    (inOrder : K → K → Bool) : (map.sort inOrder).keys.Nodup :=
  (perm_keys_sort inOrder map).nodup_iff.mpr distinct

/-- Sorted keys ascend strictly, because none comes twice. -/
theorem pairwise_keys_sort {inOrder : K → K → Bool}
    (linear : IsLinearOrder K fun left right => inOrder left right = true) {map : OrderedMap K V}
    (distinct : map.keys.Nodup) :
    (map.sort inOrder).keys.Pairwise fun left right => inOrder left right = true ∧ left ≠ right := by
  have ordered := Sequence.pairwise_mergeSort linear map.keys
  rw [← keys_sort] at ordered
  exact ordered.and (nodup_keys_sort distinct inOrder)

variable [DecidableEq K]

theorem contains_iff {map : OrderedMap K V} {key : K} :
    map.contains key = true ↔ key ∈ map.keys := by
  simp [contains, keys]

@[simp] theorem get?_empty (key : K) : (∅ : OrderedMap K V).get? key = none := rfl

theorem get?_eq_none_iff {map : OrderedMap K V} {key : K} :
    map.get? key = none ↔ key ∉ map.keys := by
  simp only [get?, Option.map_eq_none_iff, List.find?_eq_none, keys, List.mem_map, not_exists,
    not_and, decide_eq_true_eq]

theorem mem_of_get? {map : OrderedMap K V} {key : K} {value : V}
    (found : map.get? key = some value) : (key, value) ∈ map.entries := by
  obtain ⟨entry, first, rfl⟩ := Option.map_eq_some_iff.mp found
  have same : entry.1 = key := by simpa using List.find?_some first
  rw [← same]
  exact List.mem_of_find?_eq_some first

theorem exists_get? {map : OrderedMap K V} {key : K} (member : key ∈ map.keys) :
    ∃ value, map.get? key = some value := by
  cases found : map.get? key with
  | none => exact absurd member (get?_eq_none_iff.mp found)
  | some value => exact ⟨value, rfl⟩

theorem get?_of_mem {map : OrderedMap K V} (distinct : map.keys.Nodup) {entry : K × V}
    (member : entry ∈ map.entries) : map.get? entry.1 = some entry.2 := by
  obtain ⟨value, found⟩ := exists_get? (mem_keys_of_mem member)
  have same := List.inj_on_of_nodup_map distinct (mem_of_get? found) member rfl
  rw [found, ← same]

theorem get?_eq_some_iff {map : OrderedMap K V} (distinct : map.keys.Nodup) {key : K} {value : V} :
    map.get? key = some value ↔ (key, value) ∈ map.entries :=
  ⟨mem_of_get?, get?_of_mem distinct⟩

theorem isSome_get? {map : OrderedMap K V} {key : K} :
    (map.get? key).isSome = true ↔ key ∈ map.keys := by
  rw [Option.isSome_iff_ne_none, ne_eq, get?_eq_none_iff, not_not]

theorem get?_sort {map : OrderedMap K V} (distinct : map.keys.Nodup) (inOrder : K → K → Bool)
    (key : K) : (map.sort inOrder).get? key = map.get? key := by
  ext value
  rw [get?_eq_some_iff (nodup_keys_sort distinct inOrder), get?_eq_some_iff distinct]
  exact (List.mergeSort_perm _ _).mem_iff

theorem entries_eq_map_keys {map : OrderedMap K V} (distinct : map.keys.Nodup) (default : V) :
    map.entries = map.keys.map fun key => (key, (map.get? key).getD default) := by
  have same : ∀ entry ∈ map.entries, (entry.1, (map.get? entry.1).getD default) = entry := by
    intro entry member
    rw [get?_of_mem distinct member, Option.getD_some]
  rw [keys, List.map_map]
  exact ((List.map_congr_left same).trans (List.map_id _)).symm

theorem eq_of_getD {map other : OrderedMap K V} (distinct : map.keys.Nodup) (default : V)
    (keys : map.keys = other.keys)
    (values : ∀ key, (map.get? key).getD default = (other.get? key).getD default) : map = other := by
  have same : map.entries = other.entries := by
    rw [entries_eq_map_keys distinct default, entries_eq_map_keys (keys ▸ distinct) default, keys]
    simp only [values]
  cases map
  cases other
  rw [mk.injEq]
  exact same

theorem get?_map_keys (keys : List K) (f : K → V) (key : K) :
    (⟨keys.map fun key => (key, f key)⟩ : OrderedMap K V).get? key =
      if key ∈ keys then some (f key) else none := by
  induction keys with
  | nil => rfl
  | cons head rest ih =>
    by_cases same : head = key
    · simp [get?, same]
    · have other : key ≠ head := fun equal => same equal.symm
      simpa [get?, same, other] using ih

theorem exists_indexOf? {map : OrderedMap K V} {key : K} (member : key ∈ map.keys) :
    ∃ place, map.indexOf? key = some place := by
  cases found : map.indexOf? key with
  | some place => exact ⟨place, rfl⟩
  | none =>
    have absent := List.findIdx?_eq_none_iff.mp found key member
    simp at absent

theorem getElem?_of_indexOf? {map : OrderedMap K V} {key : K} {place : Nat}
    (found : map.indexOf? key = some place) : map.keys[place]? = some key := by
  obtain ⟨inside, here, _⟩ := List.findIdx?_eq_some_iff_getElem.mp found
  rw [List.getElem?_eq_getElem inside]
  simpa using here

theorem indexOf?_eq_some_iff {map : OrderedMap K V} (distinct : map.keys.Nodup) {key : K}
    {place : Nat} : map.indexOf? key = some place ↔ map.keys[place]? = some key := by
  refine ⟨getElem?_of_indexOf?, fun here => ?_⟩
  obtain ⟨inside, rfl⟩ := List.getElem?_eq_some_iff.mp here
  refine List.findIdx?_eq_some_iff_getElem.mpr ⟨inside, by simp, fun earlier before => ?_⟩
  simpa [distinct.getElem_inj_iff] using Nat.ne_of_lt before

theorem isSome_indexOf? {map : OrderedMap K V} {key : K} :
    (map.indexOf? key).isSome = true ↔ key ∈ map.keys := by
  simp [indexOf?]

theorem keys_write (key : K) (value : V) (entries : List (K × V)) :
    (write key value entries).map Prod.fst =
      if key ∈ entries.map Prod.fst then entries.map Prod.fst else entries.map Prod.fst ++ [key] := by
  induction entries with
  | nil => simp [write]
  | cons entry rest ih =>
    obtain ⟨present, old⟩ := entry
    by_cases same : present = key
    · simp [write, same]
    · have other : key ≠ present := fun equal => same equal.symm
      simp only [write, same, if_false, List.map_cons, ih, List.mem_cons, other, false_or]
      split <;> simp

theorem keys_insert (map : OrderedMap K V) (key : K) (value : V) :
    (map.insert key value).keys = if key ∈ map.keys then map.keys else map.keys ++ [key] :=
  keys_write key value map.entries

theorem mem_keys_insert {map : OrderedMap K V} {key other : K} {value : V} :
    other ∈ (map.insert key value).keys ↔ other = key ∨ other ∈ map.keys := by
  rw [keys_insert]
  split
  · next present =>
    exact ⟨Or.inr, fun either => either.elim (fun same => same ▸ present) id⟩
  · simp [or_comm]

theorem nodup_keys_insert {map : OrderedMap K V} (distinct : map.keys.Nodup) (key : K) (value : V) :
    (map.insert key value).keys.Nodup := by
  rw [keys_insert]
  split
  · exact distinct
  · next absent => simpa [List.nodup_append] using ⟨distinct, fun other present same =>
      absent (same ▸ present)⟩

theorem mem_insert {map : OrderedMap K V} {key : K} {value : V} {entry : K × V}
    (member : entry ∈ (map.insert key value).entries) :
    entry = (key, value) ∨ entry ∈ map.entries := by
  obtain ⟨entries⟩ := map
  change entry ∈ write key value entries at member
  change _ ∨ entry ∈ entries
  induction entries with
  | nil => exact Or.inl (List.mem_singleton.mp member)
  | cons head rest ih =>
    unfold write at member
    split at member
    · rcases List.mem_cons.mp member with same | later
      · exact Or.inl same
      · exact Or.inr (List.mem_cons_of_mem _ later)
    · rcases List.mem_cons.mp member with same | later
      · exact Or.inr (same ▸ List.mem_cons_self)
      · exact (ih later).imp_right (List.mem_cons_of_mem _)

theorem mem_insert_self (map : OrderedMap K V) (key : K) (value : V) :
    (key, value) ∈ (map.insert key value).entries := by
  obtain ⟨entries⟩ := map
  change (key, value) ∈ write key value entries
  induction entries with
  | nil => exact List.mem_cons_self
  | cons head rest ih =>
    unfold write
    split
    · exact List.mem_cons_self
    · exact List.mem_cons_of_mem _ ih

theorem mem_insert_of_ne {map : OrderedMap K V} {key : K} {entry : K × V} (value : V)
    (member : entry ∈ map.entries) (different : entry.1 ≠ key) :
    entry ∈ (map.insert key value).entries := by
  obtain ⟨entries⟩ := map
  change entry ∈ entries at member
  change entry ∈ write key value entries
  induction entries with
  | nil => cases member
  | cons head rest ih =>
    unfold write
    rcases List.mem_cons.mp member with rfl | later
    · rw [if_neg different]
      exact List.mem_cons_self
    · split
      · exact List.mem_cons_of_mem _ later
      · exact List.mem_cons_of_mem _ (ih later)

theorem get?_insert_self (map : OrderedMap K V) (key : K) (value : V) :
    (map.insert key value).get? key = some value := by
  obtain ⟨entries⟩ := map
  change ((write key value entries).find? fun entry => entry.1 = key).map Prod.snd = some value
  induction entries with
  | nil => simp [write]
  | cons head rest ih =>
    by_cases same : head.1 = key
    · simp [write, same]
    · simpa [write, same] using ih

theorem get?_insert_of_ne (map : OrderedMap K V) {key other : K} (value : V)
    (different : other ≠ key) : (map.insert key value).get? other = map.get? other := by
  obtain ⟨entries⟩ := map
  change ((write key value entries).find? fun entry => entry.1 = other).map Prod.snd =
    (entries.find? fun entry => entry.1 = other).map Prod.snd
  have reverse : key ≠ other := fun equal => different equal.symm
  induction entries with
  | nil => simp [write, reverse]
  | cons head rest ih =>
    by_cases same : head.1 = key
    · simp [write, same, reverse]
    · by_cases here : head.1 = other
      · simp [write, here, different]
      · simpa [write, same, here] using ih

theorem get?_insert (map : OrderedMap K V) (key other : K) (value : V) :
    (map.insert key value).get? other = if other = key then some value else map.get? other := by
  split
  · next same => rw [same, get?_insert_self]
  · next different => exact get?_insert_of_ne map value different

theorem mem_keys_insertAll {map : OrderedMap K V} {entries : List (K × V)} {key : K} :
    key ∈ (map.insertAll entries).keys ↔ key ∈ map.keys ∨ key ∈ entries.map Prod.fst := by
  induction entries generalizing map with
  | nil => simp [insertAll]
  | cons entry rest ih =>
    change key ∈ ((map.insert entry.1 entry.2).insertAll rest).keys ↔ _
    rw [ih, mem_keys_insert, List.map_cons, List.mem_cons]
    tauto

theorem nodup_keys_insertAll {map : OrderedMap K V} (distinct : map.keys.Nodup)
    (entries : List (K × V)) : (map.insertAll entries).keys.Nodup := by
  induction entries generalizing map with
  | nil => exact distinct
  | cons entry rest ih => exact ih (nodup_keys_insert distinct entry.1 entry.2)

/-- The keys after writing depend on the keys before and the keys written alone. -/
theorem keys_insertAll_congr {map other : OrderedMap K V} {entries others : List (K × V)}
    (keys : map.keys = other.keys) (written : entries.map Prod.fst = others.map Prod.fst) :
    (map.insertAll entries).keys = (other.insertAll others).keys := by
  induction entries generalizing map other others with
  | nil =>
    obtain rfl : others = [] := by simpa using written.symm
    exact keys
  | cons entry rest ih =>
    obtain ⟨⟨key, value⟩, later, rfl, here, there⟩ := List.map_eq_cons_iff.mp written.symm
    obtain rfl : key = entry.1 := here
    have begun : (map.insert entry.1 entry.2).keys = (other.insert entry.1 value).keys := by
      rw [keys_insert, keys_insert, keys]
    change ((map.insert entry.1 entry.2).insertAll rest).keys =
      ((other.insert entry.1 value).insertAll later).keys
    exact ih begun there.symm

theorem mem_insertAll {map : OrderedMap K V} {entries : List (K × V)} {entry : K × V}
    (member : entry ∈ (map.insertAll entries).entries) : entry ∈ map.entries ∨ entry ∈ entries := by
  induction entries generalizing map with
  | nil => exact Or.inl member
  | cons head rest ih =>
    change entry ∈ ((map.insert head.1 head.2).insertAll rest).entries at member
    rcases ih member with written | later
    · rcases mem_insert written with same | before
      · exact Or.inr (same ▸ List.mem_cons_self)
      · exact Or.inl before
    · exact Or.inr (List.mem_cons_of_mem _ later)

/-- What the map holds already can be written again. -/
theorem insert_of_mem {map : OrderedMap K V} (distinct : map.keys.Nodup) {entry : K × V}
    (member : entry ∈ map.entries) : map.insert entry.1 entry.2 = map := by
  refine eq_of_getD (nodup_keys_insert distinct entry.1 entry.2) entry.2 ?_ fun key => ?_
  · rw [keys_insert, if_pos (mem_keys_of_mem member)]
  · rw [get?_insert]
    split
    · next same => rw [same, get?_of_mem distinct member]
    · rfl

theorem insertAll_of_mem {map : OrderedMap K V} (distinct : map.keys.Nodup) {entries : List (K × V)}
    (members : ∀ entry ∈ entries, entry ∈ map.entries) : map.insertAll entries = map := by
  induction entries with
  | nil => rfl
  | cons entry rest ih =>
    obtain ⟨here, later⟩ := List.forall_mem_cons.mp members
    change (map.insert entry.1 entry.2).insertAll rest = map
    rw [insert_of_mem distinct here, ih later]

theorem entries_insert_of_not_mem {map : OrderedMap K V} {key : K} (absent : key ∉ map.keys)
    (value : V) : (map.insert key value).entries = map.entries ++ [(key, value)] := by
  obtain ⟨entries⟩ := map
  change write key value entries = entries ++ [(key, value)]
  induction entries with
  | nil => rfl
  | cons head rest ih =>
    obtain ⟨different, later⟩ := List.ne_and_not_mem_of_not_mem_cons absent
    rw [write, if_neg different.symm, ih later, List.cons_append]

/-- A key that is there keeps its place, and only its value is replaced. -/
theorem entries_insert_of_mem {map : OrderedMap K V} (distinct : map.keys.Nodup) {key : K}
    (present : key ∈ map.keys) (value : V) : (map.insert key value).entries =
      map.entries.map fun entry => if entry.1 = key then (key, value) else entry := by
  obtain ⟨entries⟩ := map
  change write key value entries = _
  change (entries.map Prod.fst).Nodup at distinct
  change key ∈ entries.map Prod.fst at present
  induction entries with
  | nil => cases present
  | cons head rest ih =>
    obtain ⟨fresh, later⟩ := List.nodup_cons.mp distinct
    by_cases same : head.1 = key
    · have others : ∀ entry ∈ rest, (if entry.1 = key then (key, value) else entry) = entry := by
        intro entry member
        refine if_neg fun again => fresh ?_
        rw [same, ← again]
        exact List.mem_map_of_mem member
      rw [write, if_pos same, List.map_cons, if_pos same, List.map_congr_left others, List.map_id']
    · have behind : key ∈ rest.map Prod.fst :=
        (List.mem_cons.mp present).resolve_left fun equal => same equal.symm
      rw [write, if_neg same, List.map_cons, if_neg same, ih later behind]

/-- What is written under keys that are all new comes behind the rest as it is. -/
theorem entries_insertAll {map : OrderedMap K V} {entries : List (K × V)}
    (distinct : (map.keys ++ entries.map Prod.fst).Nodup) :
    (map.insertAll entries).entries = map.entries ++ entries := by
  induction entries generalizing map with
  | nil => exact (List.append_nil _).symm
  | cons entry rest ih =>
    have absent : entry.1 ∉ map.keys := fun present =>
      (List.nodup_append.mp distinct).2.2 entry.1 present entry.1 List.mem_cons_self rfl
    have written := entries_insert_of_not_mem absent entry.2
    change ((map.insert entry.1 entry.2).insertAll rest).entries = _
    rw [ih, written, List.append_assoc, List.singleton_append]
    rw [keys_insert, if_neg absent, List.append_assoc]
    exact distinct

theorem sameKeys_iff {left right : OrderedMap K V} :
    left.sameKeys right = true ↔ ∀ key, key ∈ left.keys ↔ key ∈ right.keys := by
  simp only [sameKeys, Bool.and_eq_true, List.all_eq_true, contains_iff]
  exact ⟨fun both key => ⟨both.1 key, both.2 key⟩,
    fun same => ⟨fun key => (same key).mp, fun key => (same key).mpr⟩⟩

end AttributeGrammar.OrderedMap
