import AttributeGrammar.Sequence
import Mathlib.Data.List.Forall2
import Mathlib.Data.List.Induction
import Mathlib.Order.Lattice

/-! Lists compared place by place, written at a place, and sorted.
-/
namespace AttributeGrammar.Sequence

theorem before_of_getElem? {α β : Type} {R : α → β → Prop} {before : List α} {after : List β}
    (related : List.Forall₂ R before after) {place : Nat} {new : β}
    (found : after[place]? = some new) : ∃ old, before[place]? = some old ∧ R old new := by
  induction related generalizing place with
  | nil => simp at found
  | cons head tail ih =>
    cases place with
    | zero => exact ⟨_, rfl, Option.some.inj found ▸ head⟩
    | succ place => exact ih found

theorem after_of_getElem? {α β : Type} {R : α → β → Prop} {before : List α} {after : List β}
    (related : List.Forall₂ R before after) {place : Nat} {old : α}
    (found : before[place]? = some old) : ∃ new, after[place]? = some new ∧ R old new :=
  before_of_getElem? related.flip found

theorem forall₂_of_getElem? {α β : Type} {R : α → β → Prop} {before : List α} {after : List β}
    (length : before.length = after.length) (each : ∀ (place : Nat) (old : α) (new : β),
      before[place]? = some old → after[place]? = some new → R old new) :
    List.Forall₂ R before after :=
  List.forall₂_iff_get.mpr ⟨length, fun place left right => each place _ _
    (List.getElem?_eq_getElem left) (List.getElem?_eq_getElem right)⟩

theorem forall₂_members {α β : Type} {R : α → β → Prop} {before : List α} {after : List β}
    (related : List.Forall₂ R before after) :
    List.Forall₂ (fun old new => old ∈ before ∧ new ∈ after ∧ R old new) before after := by
  refine forall₂_of_getElem? related.length_eq fun place old new found there => ?_
  obtain ⟨same, present, holds⟩ := after_of_getElem? related found
  obtain rfl : same = new := by simpa [present] using there
  exact ⟨List.mem_of_getElem? found, List.mem_of_getElem? there, holds⟩

theorem forall₂_trans {α β γ : Type} {R : α → β → Prop} {S : β → γ → Prop} {T : α → γ → Prop}
    (both : ∀ {first middle last}, R first middle → S middle last → T first last)
    {first : List α} {middle : List β} {last : List γ} (left : List.Forall₂ R first middle)
    (right : List.Forall₂ S middle last) : List.Forall₂ T first last := by
  induction left generalizing last with
  | nil =>
    cases right
    exact .nil
  | cons head _ ih =>
    cases right with
    | cons other tail => exact .cons (both head other) (ih tail)

theorem forall₂_and {α β : Type} {R S : α → β → Prop} {before : List α} {after : List β}
    (first : List.Forall₂ R before after) (second : List.Forall₂ S before after) :
    List.Forall₂ (fun old new => R old new ∧ S old new) before after := by
  induction first with
  | nil => exact .nil
  | cons head _ ih =>
    cases second with
    | cons other tail => exact .cons ⟨head, other⟩ (ih tail)

theorem forall₂_filter {α β : Type} {R : α → β → Prop} {p : α → Bool} {q : β → Bool}
    {before : List α} {after : List β} (related : List.Forall₂ R before after)
    (same : ∀ {old new}, R old new → p old = q new) :
    List.Forall₂ R (before.filter p) (after.filter q) := by
  induction related with
  | nil => exact .nil
  | cons head _ ih =>
    rw [List.filter_cons, List.filter_cons, same head]
    split
    · exact .cons head ih
    · exact ih

theorem forall₂_of_zipIdx {α β : Type} {R : α → β → Prop} {before : List α} {place : Nat}
    {after : List β}
    (related : List.Forall₂ (fun old new => R old.1 new) (before.zipIdx place) after) :
    List.Forall₂ R before after := by
  have plain := List.forall₂_map_left_iff.mpr related
  rwa [List.zipIdx_map_fst] at plain

theorem map_eq_of_forall₂ {α β : Type} {f : α → β} {before after : List α}
    (same : List.Forall₂ (fun old new => f new = f old) before after) :
    after.map f = before.map f := by
  induction same with
  | nil => rfl
  | cons head tail ih => rw [List.map_cons, List.map_cons, head, ih]

theorem flatMap_eq_of_forall₂ {α β γ : Type} {f : α → List γ} {g : β → List γ} {before : List α}
    {after : List β} (same : List.Forall₂ (fun old new => f old = g new) before after) :
    before.flatMap f = after.flatMap g := by
  induction same with
  | nil => rfl
  | cons head tail ih => rw [List.flatMap_cons, List.flatMap_cons, head, ih]

theorem forall_iff_of_forall₂ {α β : Type} {P : α → Prop} {Q : β → Prop} {before : List α}
    {after : List β} (related : List.Forall₂ (fun old new => P old ↔ Q new) before after) :
    (∀ item ∈ before, P item) ↔ ∀ item ∈ after, Q item := by
  induction related with
  | nil => simp
  | cons head tail ih => simp only [List.forall_mem_cons, head, ih]

theorem exists_iff_of_forall₂ {α β : Type} {P : α → Prop} {Q : β → Prop} {before : List α}
    {after : List β} (related : List.Forall₂ (fun old new => P old ↔ Q new) before after) :
    (∃ item ∈ before, P item) ↔ ∃ item ∈ after, Q item := by
  induction related with
  | nil => simp
  | cons head tail ih => simp only [List.mem_cons, exists_eq_or_imp, head, ih]

/-- What some item has after one item was changed: what the change brings, or what some item had. -/
theorem exists_getElem?_modify {α : Type} (P : Nat → α → Prop) (Q : Prop) {items : List α}
    {place : Nat} (inside : place < items.length) {change : α → α}
    (each : ∀ item, items[place]? = some item → (P place (change item) ↔ Q ∨ P place item)) :
    (∃ here item, (items.modify place change)[here]? = some item ∧ P here item) ↔
      Q ∨ ∃ here item, items[here]? = some item ∧ P here item := by
  have changed (item : α) : (items.modify place change)[place]? = some item ↔
      ∃ old, items[place]? = some old ∧ change old = item := by
    simp
  constructor
  · rintro ⟨here, item, found, has⟩
    by_cases same : place = here
    · subst same
      obtain ⟨old, present, rfl⟩ := (changed item).mp found
      rcases (each old present).mp has with brought | had
      · exact Or.inl brought
      · exact Or.inr ⟨place, old, present, had⟩
    · rw [List.getElem?_modify_ne change items same] at found
      exact Or.inr ⟨here, item, found, has⟩
  · rintro (brought | ⟨here, item, found, had⟩)
    · have present := List.getElem?_eq_getElem inside
      exact ⟨place, _, (changed _).mpr ⟨_, present, rfl⟩, (each _ present).mpr (Or.inl brought)⟩
    · by_cases same : place = here
      · subst same
        exact ⟨place, _, (changed _).mpr ⟨item, found, rfl⟩, (each item found).mpr (Or.inr had)⟩
      · exact ⟨here, item, by rw [List.getElem?_modify_ne change items same, found], had⟩

theorem forall₂_filterMap {α β : Type} (f : α → Option β) (items : List α) :
    List.Forall₂ (fun item result => f item = some result)
      (items.filter fun item => (f item).isSome) (items.filterMap f) := by
  induction items with
  | nil => exact .nil
  | cons item rest ih =>
    cases found : f item with
    | none => simpa [found] using ih
    | some result => simpa [found] using ih

theorem getElem?_filterMap {α β : Type} {f : α → Option β} {items : List α} {place : Nat} {item : α}
    {result : β} (found : items[place]? = some item) (made : f item = some result) :
    (items.filterMap f)[((items.take place).filterMap f).length]? = some result := by
  obtain ⟨inside, rfl⟩ := List.getElem?_eq_some_iff.mp found
  have split : items = items.take place ++ items[place] :: items.drop (place + 1) := by
    rw [List.getElem_cons_drop, List.take_append_drop]
  conv_lhs => rw [split, List.filterMap_append, List.filterMap_cons_some made]
  simp

theorem getElem?_map_range_iff {α : Type} {f : Nat → α} {length place : Nat} {item : α} :
    ((List.range length).map f)[place]? = some item ↔ place < length ∧ f place = item := by
  simp only [List.getElem?_map, Option.map_eq_some_iff, List.getElem?_eq_some_iff,
    List.length_range, List.getElem_range]
  constructor
  · rintro ⟨_, ⟨below, rfl⟩, same⟩
    exact ⟨below, same⟩
  · rintro ⟨below, same⟩
    exact ⟨place, ⟨below, rfl⟩, same⟩

theorem getElem?_concat_cases {α : Type} {items : List α} {last item : α} {place : Nat}
    (found : (items ++ [last])[place]? = some item) :
    items[place]? = some item ∨ place = items.length ∧ last = item := by
  rcases Nat.lt_or_ge place items.length with before | beyond
  · rw [List.getElem?_append_left before] at found
    exact Or.inl found
  · rw [List.getElem?_append_right beyond, List.getElem?_singleton] at found
    split at found
    · exact Or.inr ⟨by omega, Option.some.inj found⟩
    · cases found

theorem map_snd_filter_zipIdx {α : Type} (items : List α) (p : α → Bool) :
    (items.zipIdx.filter fun item => p item.1).map Prod.snd =
      (List.range items.length).filter fun place => items[place]?.any p := by
  induction items using List.reverseRecOn with
  | nil => rfl
  | append_singleton items last ih =>
    have before : (List.range items.length).filter (fun place => (items ++ [last])[place]?.any p) =
        (List.range items.length).filter fun place => items[place]?.any p :=
      List.filter_congr fun place inside => by
        rw [List.getElem?_append_left (List.mem_range.mp inside)]
    rw [List.zipIdx_append, List.filter_append, List.map_append, ih, List.length_append,
      List.length_singleton, List.range_succ, List.filter_append, before]
    cases kept : p last <;> simp [kept]

theorem pairwise_zipIdx {α : Type} (items : List α) :
    items.zipIdx.Pairwise fun earlier later => earlier.2 < later.2 := by
  rw [← List.pairwise_map (f := Prod.snd), List.zipIdx_map_snd]
  exact List.pairwise_lt_range'

theorem modify_last {α : Type} (items : List α) (last : α) (change : α → α) :
    (items ++ [last]).modify items.length change = items ++ [change last] := by
  induction items with
  | nil => rfl
  | cons item rest ih => simpa using ih

theorem set_of_getElem? {α : Type} {items : List α} {place : Nat} {item : α}
    (found : items[place]? = some item) : items.set place item = items := by
  obtain ⟨inside, rfl⟩ := List.getElem?_eq_some_iff.mp found
  exact List.set_getElem_self inside

theorem modify_of_getElem? {α : Type} {items : List α} {place : Nat} {item : α} {change : α → α}
    (found : items[place]? = some item) (same : change item = item) :
    items.modify place change = items := by
  rw [List.modify_eq_set_getElem?, found]
  change items.set place (change item) = items
  rw [same, set_of_getElem? found]

theorem item?_map {α β : Type} (f : α → β) (items : List α) (index : Int) :
    item? (items.map f) index = (item? items index).map f := by
  rw [item?, item?, List.length_map, Option.map_bind]
  simp only [List.getElem?_map, Function.comp_def]

theorem mem_of_item? {α : Type} {items : List α} {index : Int} {item : α}
    (found : item? items index = some item) : item ∈ items := by
  obtain ⟨_, _, here⟩ := Option.bind_eq_some_iff.mp found
  exact List.mem_of_getElem? here

theorem replace?_ofNat {α : Type} {items : List α} {place : Nat} (inside : place < items.length)
    (item : α) : replace? items (place : Int) item = some (items.set place item) := by
  simp [replace?, place?_ofNat, inside]

section
variable {α : Type} [BEq α] [LawfulBEq α]

/-- Items added at the end of a list, each unless it is there. -/
theorem mem_addMissing {items known : List α} {item : α} :
    item ∈ items.foldl (fun known item => if known.contains item then known else known ++ [item])
      known ↔ item ∈ known ∨ item ∈ items := by
  induction items generalizing known with
  | nil => simp
  | cons head rest ih =>
    rw [List.foldl_cons, ih]
    by_cases present : head ∈ known
    · simp only [List.contains_iff_mem.mpr present, if_true, List.mem_cons]
      exact ⟨fun either => either.imp_right Or.inr, fun either => either.elim Or.inl
        fun later => later.elim (fun same => Or.inl (same ▸ present)) Or.inr⟩
    · simp [present, or_assoc]

theorem addMissing_of_subset {items known : List α} (present : items ⊆ known) :
    items.foldl (fun known item => if known.contains item then known else known ++ [item]) known =
      known := by
  induction items with
  | nil => rfl
  | cons head rest ih =>
    obtain ⟨here, later⟩ := List.cons_subset.mp present
    rw [List.foldl_cons, if_pos (List.contains_iff_mem.mpr here), ih later]

theorem nodup_addMissing {known : List α} (distinct : known.Nodup) (items : List α) :
    (items.foldl (fun known item => if known.contains item then known else known ++ [item])
      known).Nodup := by
  induction items generalizing known with
  | nil => exact distinct
  | cons head rest ih =>
    apply ih
    by_cases present : head ∈ known
    · simpa [present] using distinct
    · have fresh : known.contains head = false := by simpa using present
      simp only [fresh, Bool.false_eq_true, if_false]
      simpa [List.nodup_append] using ⟨distinct, fun item member same => present (same ▸ member)⟩

/-- An item at the end counts when it did not come before. -/
theorem eraseDups_append_singleton (items : List α) (item : α) [DecidableEq α] :
    (items ++ [item]).eraseDups =
      if item ∈ items.eraseDups then items.eraseDups else items.eraseDups ++ [item] := by
  rw [List.eraseDups_append]
  by_cases present : item ∈ items <;> simp [List.removeAll, present, List.eraseDups_cons]

end

section
variable {α : Type} {inOrder : α → α → Bool}

/-- Items are in a linear order if their keys are, which tell them apart. -/
theorem linear_of_key {κ : Type} [LinearOrder κ] {key : α → κ} (injective : Function.Injective key)
    (keyed : ∀ {left right : α}, inOrder left right = true ↔ key left ≤ key right) :
    IsLinearOrder α fun left right => inOrder left right = true where
  refl _ := keyed.mpr le_rfl
  trans _ _ _ first second := keyed.mpr (le_trans (keyed.mp first) (keyed.mp second))
  antisymm _ _ first second := injective (le_antisymm (keyed.mp first) (keyed.mp second))
  total left right := by
    rw [keyed, keyed]
    exact le_total _ _

theorem pairwise_mergeSort (linear : IsLinearOrder α fun left right => inOrder left right = true)
    (items : List α) :
    (items.mergeSort inOrder).Pairwise fun left right => inOrder left right = true := by
  have total (left right : α) : (inOrder left right || inOrder right left) = true := by
    rw [Bool.or_eq_true]
    exact linear.total left right
  exact List.pairwise_mergeSort linear.trans total items

end

end AttributeGrammar.Sequence
