import AttributeGrammar.Grammar.Row
import Mathlib.Data.List.TakeWhile

/-! How rows, words and the parts of a row lie in a text.
Cutting at a separator is what the list library calls splitting on it. Of an arrow it matters only
whether there is exactly one.
-/
namespace AttributeGrammar.Text

/-! ### Pieces between separators -/

theorem pieces_eq_splitOn (separator : Char) (text : List Char) :
    pieces separator text = text.splitOn separator := by
  induction text with
  | nil => rfl
  | cons c rest ih =>
    rw [pieces, List.splitOn_cons_eq_if_modifyHead, ih]
    by_cases same : c = separator
    · simp [same]
    · rw [if_neg same, if_neg (by simpa using same)]
      cases parts : rest.splitOn separator with
      | nil => exact absurd parts (List.splitOn_ne_nil separator rest)
      | cons piece others => rfl

theorem pieces_of_not_mem {separator : Char} {text : List Char} (free : separator ∉ text) :
    pieces separator text = [text] := by
  rw [pieces_eq_splitOn, List.splitOn_eq_singleton free]

theorem pieces_append (separator : Char) (first later : List Char) :
    pieces separator (first ++ separator :: later) =
      pieces separator first ++ pieces separator later := by
  simp only [pieces_eq_splitOn]
  exact List.splitOnP_append_cons first later (beq_self_eq_true separator)

/-- A text ends with its first piece, or there is a separator behind that and another text. -/
@[elab_as_elim]
theorem pieces_induction (separator : Char) {motive : List Char → Prop}
    (last : ∀ piece, separator ∉ piece → motive piece)
    (more : ∀ first later, separator ∉ first → motive later → motive (first ++ separator :: later))
    (text : List Char) : motive text := by
  induction length : text.length using Nat.strong_induction_on generalizing text with
  | _ _ ih =>
    by_cases present : separator ∈ text
    · obtain ⟨first, later, rfl, free⟩ := List.eq_append_cons_of_mem present
      have shorter : later.length < (first ++ separator :: later).length := by simp; omega
      exact more first later free (ih _ (length ▸ shorter) later rfl)
    · exact last text present

theorem pieces_ne_nil (separator : Char) (text : List Char) : pieces separator text ≠ [] := by
  rw [pieces_eq_splitOn]
  exact List.splitOn_ne_nil separator text

theorem length_pieces (separator : Char) (text : List Char) :
    (pieces separator text).length = text.count separator + 1 := by
  induction text with
  | nil => rfl
  | cons c rest ih =>
    by_cases same : c = separator
    · rw [pieces, if_pos same, List.length_cons, ih, same, List.count_cons_self]
    · rw [pieces, if_neg same, List.count_cons_of_ne same, ← ih]
      cases parts : pieces separator rest with
      | nil => exact absurd parts (pieces_ne_nil separator rest)
      | cons piece others => rfl

theorem pieces_eq_singleton_iff {separator : Char} {text piece : List Char} :
    pieces separator text = [piece] ↔ separator ∉ text ∧ piece = text := by
  constructor
  · intro single
    have free : separator ∉ text := by
      have length := congrArg List.length single
      rw [length_pieces] at length
      exact List.count_eq_zero.mp (by simpa using length)
    rw [pieces_of_not_mem free] at single
    exact ⟨free, by simpa using single.symm⟩
  · rintro ⟨free, rfl⟩
    exact pieces_of_not_mem free

theorem pieces_eq_pair_iff {separator : Char} {text left right : List Char} :
    pieces separator text = [left, right] ↔
      text = left ++ separator :: right ∧ separator ∉ left ∧ separator ∉ right := by
  constructor
  · intro pair
    have present : separator ∈ text := by
      by_contra free
      rw [pieces_of_not_mem free] at pair
      simp at pair
    obtain ⟨first, later, rfl, free⟩ := List.eq_append_cons_of_mem present
    rw [pieces_append, pieces_of_not_mem free, List.singleton_append] at pair
    obtain ⟨rfl, single⟩ : first = left ∧ pieces separator later = [right] := by simpa using pair
    obtain ⟨last, rfl⟩ := pieces_eq_singleton_iff.mp single
    exact ⟨rfl, free, last⟩
  · rintro ⟨rfl, first, last⟩
    rw [pieces_append, pieces_of_not_mem first, pieces_of_not_mem last]
    rfl

private theorem mem_of_mem_pieces {separator c : Char} {text piece : List Char}
    (member : piece ∈ pieces separator text) (inside : c ∈ piece) : c ∈ text := by
  induction text generalizing piece with
  | nil =>
    obtain rfl : piece = [] := by simpa [pieces] using member
    exact inside
  | cons head rest ih =>
    unfold pieces at member
    split at member
    · rcases List.mem_cons.mp member with rfl | later
      · cases inside
      · exact List.mem_cons_of_mem _ (ih later inside)
    · split at member
      · obtain rfl : piece = [head] := by simpa using member
        obtain rfl : c = head := by simpa using inside
        exact List.mem_cons_self
      · next first others parts =>
        rcases List.mem_cons.mp member with rfl | later
        · rcases List.mem_cons.mp inside with rfl | tail
          · exact List.mem_cons_self
          · exact List.mem_cons_of_mem _ (ih (by simp [parts]) tail)
        · exact List.mem_cons_of_mem _ (ih (by simp [parts, later]) inside)

/-! ### The parts of a row -/

def rulePart (row : List Char) : List Char := row.takeWhile (· ≠ ':')

theorem rulePart_append {rule : List Char} (free : ':' ∉ rule) (rest : List Char) :
    rulePart (rule ++ ':' :: rest) = rule := by
  have inside : ∀ c ∈ rule, decide (c ≠ ':') = true := fun c member =>
    decide_eq_true fun same => free (same ▸ member)
  rw [rulePart, List.takeWhile_append_of_pos inside]
  simp

theorem rulePart_of_not_mem {row : List Char} (free : ':' ∉ row) : rulePart row = row := by
  rw [rulePart, List.takeWhile_eq_self_iff]
  exact fun c member => decide_eq_true fun same => free (same ▸ member)

/-- The equations of a row, which exactly one colon announces. -/
def HasEquations (row equations : List Char) : Prop :=
  row = rulePart row ++ ':' :: equations ∧ ':' ∉ equations

theorem HasEquations.unique {row equations others : List Char} (has : HasEquations row equations)
    (also : HasEquations row others) : others = equations := by
  have same := also.1.symm.trans has.1
  exact (List.cons.inj (List.append_cancel_left same)).2

theorem not_mem_rulePart (row : List Char) : ':' ∉ rulePart row := fun member => by
  have stops := List.mem_takeWhile_imp member
  simp at stops

theorem HasEquations.count {row equations : List Char} (has : HasEquations row equations) :
    row.count ':' = 1 := by
  rw [has.1, List.count_append, List.count_eq_zero.mpr (not_mem_rulePart row),
    List.count_cons_self, List.count_eq_zero.mpr has.2]

theorem rowParts_cases (row : List Char) :
    (row.count ':' = 0 ∧ rowParts row = ⟨rulePart row, none, false⟩) ∨
    (∃ equations, row.count ':' = 1 ∧ HasEquations row equations ∧
      rowParts row = ⟨rulePart row, some equations, false⟩) ∨
    (2 ≤ row.count ':' ∧ rowParts row = ⟨rulePart row, none, true⟩) := by
  by_cases free : ':' ∈ row
  · obtain ⟨rule, rest, rfl, before⟩ := List.eq_append_cons_of_mem free
    have rule_eq := rulePart_append before rest
    have total : (rule ++ ':' :: rest).count ':' = rest.count ':' + 1 := by
      rw [List.count_append, List.count_eq_zero.mpr before, List.count_cons_self]
      omega
    have cut : pieces ':' (rule ++ ':' :: rest) = rule :: pieces ':' rest := by
      rw [pieces_append, pieces_of_not_mem before]
      rfl
    right
    by_cases again : ':' ∈ rest
    · right
      refine ⟨by have := List.count_pos_iff.mpr again; omega, ?_⟩
      obtain ⟨first, last, rfl, _⟩ := List.eq_append_cons_of_mem again
      rw [rule_eq, rowParts, cut, pieces_append]
      cases one : pieces ':' first with
      | nil => exact absurd one (pieces_ne_nil _ _)
      | cons piece others =>
        cases two : pieces ':' last with
        | nil => exact absurd two (pieces_ne_nil _ _)
        | cons second further => cases others <;> rfl
    · left
      refine ⟨rest, by rw [total, List.count_eq_zero.mpr again], ⟨by rw [rule_eq], again⟩, ?_⟩
      rw [rule_eq, rowParts, cut, pieces_of_not_mem again]
  · left
    refine ⟨List.count_eq_zero.mpr free, ?_⟩
    rw [rowParts, pieces_of_not_mem free, rulePart_of_not_mem free]

/-! ### Arrows -/

/-- There is one arrow in the text, with `left` before it and `right` behind it. -/
structure OneArrow (text left right : List Char) : Prop where
  split : text = left ++ '-' :: '>' :: right
  only : ∀ before after, text = before ++ '-' :: '>' :: after → before = left

def NoArrow (text : List Char) : Prop := ∀ before after, text ≠ before ++ '-' :: '>' :: after

theorem NoArrow.tail {c : Char} {rest : List Char} (arrowless : NoArrow (c :: rest)) :
    NoArrow rest :=
  fun before after same => arrowless (c :: before) after (by rw [same]; rfl)

private theorem arrowPieces_cons {c : Char} {rest : List Char}
    (head : ∀ after, c :: rest ≠ '-' :: '>' :: after) : arrowPieces (c :: rest) =
      match arrowPieces rest with
      | [] => [[c]]
      | piece :: others => (c :: piece) :: others := by
  rw [arrowPieces.eq_def]
  split
  · next empty => cases empty
  · next after same => exact absurd same (head after)
  · next first others _ same =>
    obtain ⟨rfl, rfl⟩ := List.cons.inj same
    rfl

private theorem arrowPieces_ne_nil (text : List Char) : arrowPieces text ≠ [] := by
  unfold arrowPieces
  split
  · simp
  · simp
  · split <;> simp

private theorem arrowPieces_of_noArrow {text : List Char} (arrowless : NoArrow text) :
    arrowPieces text = [text] := by
  induction text with
  | nil => rfl
  | cons c rest ih => rw [arrowPieces_cons (arrowless []), ih arrowless.tail]

private theorem arrowPieces_append {left : List Char} (first : NoArrow (left ++ ['-']))
    (right : List Char) : arrowPieces (left ++ '-' :: '>' :: right) = left :: arrowPieces right := by
  induction left with
  | nil => rfl
  | cons c left ih =>
    have head : ∀ after, c :: (left ++ '-' :: '>' :: right) ≠ '-' :: '>' :: after := by
      rintro after same
      cases left with
      | nil => simp at same
      | cons d left =>
        obtain ⟨rfl, rfl, _⟩ : c = '-' ∧ d = '>' ∧ _ := by simpa using same
        exact first [] (left ++ ['-']) rfl
    rw [List.cons_append, arrowPieces_cons head, ih first.tail]

private theorem exists_first_arrow {text : List Char} (arrow : ¬ NoArrow text) :
    ∃ left right, text = left ++ '-' :: '>' :: right ∧ NoArrow (left ++ ['-']) := by
  induction text with
  | nil => exact absurd (fun before after same => by simp at same) arrow
  | cons c rest ih =>
    by_cases head : ∃ after, c :: rest = '-' :: '>' :: after
    · obtain ⟨after, same⟩ := head
      exact ⟨[], after, same, fun before after same => by
        have length := congrArg List.length same
        simp at length
        omega⟩
    · have later : ¬ NoArrow rest := by
        intro arrowless
        apply arrow
        intro before after same
        cases before with
        | nil => exact head ⟨after, same⟩
        | cons d before => exact arrowless before after (List.cons.inj same).2
      obtain ⟨left, right, rfl, first⟩ := ih later
      refine ⟨c :: left, right, rfl, fun before after same => ?_⟩
      cases before with
      | nil =>
        cases left with
        | nil => simp at same
        | cons d left =>
          obtain ⟨rfl, rfl, _⟩ : c = '-' ∧ d = '>' ∧ _ := by simpa using same
          exact head ⟨left ++ '-' :: '>' :: right, rfl⟩
      | cons d before => exact first before after (List.cons.inj same).2

/-- Two arrows stand at the same place, or one stands behind the other. -/
private theorem arrows_apart {left right before after : List Char}
    (same : left ++ '-' :: '>' :: right = before ++ '-' :: '>' :: after) :
    left = before ∨ (∃ middle, left = before ++ '-' :: '>' :: middle) ∨
      ∃ middle, right = middle ++ '-' :: '>' :: after := by
  rcases List.append_eq_append_iff.mp same with ⟨middle, rfl, rest⟩ | ⟨middle, rfl, rest⟩
  · match middle, rest with
    | [], _ => exact Or.inl (List.append_nil left).symm
    | [c], rest => simp at rest
    | c :: d :: middle, rest =>
      obtain ⟨rfl, rfl, rfl⟩ : '-' = c ∧ '>' = d ∧ right = middle ++ '-' :: '>' :: after := by
        simpa using rest
      exact Or.inr (Or.inr ⟨middle, rfl⟩)
  · match middle, rest with
    | [], _ => exact Or.inl (List.append_nil before)
    | [c], rest => simp at rest
    | c :: d :: middle, rest =>
      obtain ⟨rfl, rfl, _⟩ : '-' = c ∧ '>' = d ∧ _ := by simpa using rest
      exact Or.inr (Or.inl ⟨middle, rfl⟩)

theorem NoArrow.part {text part : List Char} (arrowless : NoArrow text) (inside : part <:+: text) :
    NoArrow part := by
  rintro before after rfl
  obtain ⟨first, last, same⟩ := inside
  exact arrowless (first ++ before) (after ++ last) (by rw [← same]; simp)

theorem oneArrow_iff {text left right : List Char} : OneArrow text left right ↔
    text = left ++ '-' :: '>' :: right ∧ NoArrow left ∧ NoArrow right := by
  constructor
  · rintro ⟨rfl, only⟩
    refine ⟨rfl, ?_, ?_⟩
    · rintro before after rfl
      have shorter := only before (after ++ '-' :: '>' :: right) (by simp)
      simp at shorter
    · rintro before after rfl
      have longer := only (left ++ '-' :: '>' :: before) after (by simp)
      simp at longer
  · rintro ⟨rfl, first, last⟩
    refine ⟨rfl, fun before after same => ?_⟩
    rcases arrows_apart same with rfl | ⟨middle, rfl⟩ | ⟨middle, rfl⟩
    · rfl
    · exact absurd rfl (first before middle)
    · exact absurd rfl (last middle after)

theorem arrowPieces_eq_pair_iff {text left right : List Char} :
    arrowPieces text = [left, right] ↔ OneArrow text left right := by
  constructor
  · intro pair
    have present : ¬ NoArrow text := by
      intro arrowless
      rw [arrowPieces_of_noArrow arrowless] at pair
      simp at pair
    obtain ⟨first, later, rfl, before⟩ := exists_first_arrow present
    rw [arrowPieces_append before] at pair
    obtain ⟨rfl, single⟩ : first = left ∧ arrowPieces later = [right] := by simpa using pair
    have arrowless : NoArrow later := by
      by_contra again
      obtain ⟨second, last, rfl, middle⟩ := exists_first_arrow again
      rw [arrowPieces_append middle] at single
      exact arrowPieces_ne_nil last (List.cons.inj single).2
    rw [arrowPieces_of_noArrow arrowless] at single
    obtain rfl : later = right := by simpa using single
    refine ⟨rfl, fun other after same => ?_⟩
    rcases arrows_apart same with rfl | ⟨middle, rfl⟩ | ⟨middle, rfl⟩
    · rfl
    · exact absurd (by simp) (before other (middle ++ ['-']))
    · exact absurd rfl (arrowless middle after)
  · rintro ⟨rfl, only⟩
    obtain ⟨first, later, same, before⟩ :=
      exists_first_arrow fun arrowless => arrowless left right rfl
    obtain rfl := only first later same
    have arrowless : NoArrow right := by
      rintro middle after rfl
      have longer := only (first ++ '-' :: '>' :: middle) after (by simp)
      simp at longer
    rw [arrowPieces_append before, arrowPieces_of_noArrow arrowless]

/-! ### Words and blanks -/

private theorem mem_dropWhile {p : Char → Bool} {c : Char} {text : List Char} (member : c ∈ text)
    (stops : p c = false) : c ∈ text.dropWhile p := by
  induction text with
  | nil => cases member
  | cons head rest ih =>
    rw [List.dropWhile_cons]
    split
    · next passes =>
      rcases List.mem_cons.mp member with rfl | later
      · rw [stops] at passes
        cases passes
      · exact ih later
    · exact member

private theorem mem_of_mem_dropEnd {p : Char → Bool} {c : Char} {text : List Char}
    (member : c ∈ dropEnd p text) : c ∈ text :=
  List.mem_reverse.mp ((List.dropWhile_suffix p).subset (List.mem_reverse.mp member))

theorem dropEnd_cons (p : Char → Bool) (c : Char) (rest : List Char) :
    dropEnd p (c :: rest) =
      if dropEnd p rest = [] ∧ p c = true then [] else c :: dropEnd p rest := by
  simp only [dropEnd, List.reverse_cons, List.dropWhile_append, List.isEmpty_iff,
    List.reverse_eq_nil_iff]
  by_cases blank : rest.reverse.dropWhile p = []
  · by_cases dropped : p c = true <;> simp [blank, dropped]
  · simp [blank]

theorem mem_of_mem_strip {c : Char} {text : List Char} (member : c ∈ strip text) : c ∈ text :=
  (List.dropWhile_suffix isBlank).subset (mem_of_mem_dropEnd member)

private theorem mem_strip {c : Char} {text : List Char} (member : c ∈ text)
    (visible : isBlank c = false) :
    c ∈ strip text :=
  List.mem_reverse.mpr (mem_dropWhile (List.mem_reverse.mpr (mem_dropWhile member visible)) visible)

theorem isEmpty_eq_false_iff {text : List Char} :
    isEmpty text = false ↔ ∃ c ∈ text, isBlank c = false := by
  simp [isEmpty]

theorem OneArrow.filled {row left right : List Char} (arrow : OneArrow (rulePart row) left right) :
    '-' ∈ row ∧ isEmpty row = false := by
  have inside : '-' ∈ row := by
    apply (List.takeWhile_prefix _).subset
    change '-' ∈ rulePart row
    rw [arrow.split]
    simp
  exact ⟨inside, isEmpty_eq_false_iff.mpr ⟨'-', inside, by decide⟩⟩

theorem strip_eq_nil_iff {text : List Char} : strip text = [] ↔ isEmpty text = true := by
  constructor
  · intro empty
    by_contra visible
    obtain ⟨c, member, stops⟩ := isEmpty_eq_false_iff.mp (Bool.eq_false_iff.mpr visible)
    have kept := mem_strip member stops
    rw [empty] at kept
    cases kept
  · intro blank
    have all := List.all_eq_true.mp blank
    by_contra kept
    obtain ⟨c, rest, ends⟩ := List.exists_cons_of_ne_nil
      (fun empty => kept (List.reverse_eq_nil_iff.mpr empty) :
        ((text.dropWhile isBlank).reverse).dropWhile isBlank ≠ [])
    have stops := List.head?_dropWhile_not isBlank (text.dropWhile isBlank).reverse
    rw [ends] at stops
    have member : c ∈ strip text := List.mem_reverse.mpr (ends ▸ List.mem_cons_self)
    simp [all c (mem_of_mem_strip member)] at stops

theorem isEmpty_strip {text : List Char} : isEmpty (strip text) = isEmpty text := by
  rw [Bool.eq_iff_iff]
  constructor
  · intro blank
    by_contra visible
    obtain ⟨c, member, stops⟩ := isEmpty_eq_false_iff.mp (Bool.eq_false_iff.mpr visible)
    rw [isEmpty_eq_false_iff.mpr ⟨c, mem_strip member stops, stops⟩] at blank
    cases blank
  · intro blank
    rw [strip_eq_nil_iff.mpr blank]
    rfl

private theorem occurs_singleton {c : Char} {text : List Char} : occurs [c] text = true ↔ c ∈ text := by
  induction text with
  | nil => simp [occurs]
  | cons head rest ih => simp [occurs, ih]

def Allowed (text : List Char) : Prop := ∀ c ∈ text, c ∉ forbiddenInSymbols

theorem containsAny_eq_false_iff {text : List Char} :
    containsAny forbiddenParts text = false ↔ Allowed text := by
  simp only [containsAny, forbiddenParts, List.any_map, List.any_eq_false, Function.comp_apply,
    occurs_singleton, Allowed]
  exact ⟨fun free c member forbidden => free c forbidden member,
    fun allowed c forbidden member => allowed c member forbidden⟩

theorem allowed_strip {text : List Char} : Allowed (strip text) ↔ Allowed text := by
  have visible : ∀ c ∈ forbiddenInSymbols, isBlank c = false := by
    simp only [forbiddenInSymbols, List.forall_mem_cons]
    exact ⟨rfl, rfl, rfl, rfl, List.forall_mem_nil _⟩
  constructor
  · exact fun allowed c member forbidden =>
      allowed c (mem_strip member (visible c forbidden)) forbidden
  · exact fun allowed c member => allowed c (mem_of_mem_strip member)

/-! ### Rows -/

private theorem mem_of_mem_collapseFrom {c : Char} {inGap : Bool} {text : List Char}
    (inside : c ∈ collapseFrom inGap text) : c ∈ text ∨ c = ' ' := by
  induction text generalizing inGap with
  | nil => cases inside
  | cons head rest ih =>
    unfold collapseFrom at inside
    split at inside
    · split at inside
      · exact (ih inside).imp_left (List.mem_cons_of_mem _)
      · rcases List.mem_cons.mp inside with same | later
        · exact Or.inr same
        · exact (ih later).imp_left (List.mem_cons_of_mem _)
    · rcases List.mem_cons.mp inside with rfl | later
      · exact Or.inl List.mem_cons_self
      · exact (ih later).imp_left (List.mem_cons_of_mem _)

theorem not_mem_collapse {c : Char} (visible : isGap c = false) {text : List Char}
    (absent : c ∉ text) : c ∉ collapse text := by
  intro member
  rcases mem_of_mem_collapseFrom member with inside | rfl
  · exact absent inside
  · cases visible

theorem collapseFrom_append {c : Char} (visible : isGap c = false) (first later : List Char)
    (inGap : Bool) : collapseFrom inGap (first ++ c :: later) =
      collapseFrom inGap first ++ c :: collapse later := by
  induction first generalizing inGap with
  | nil => simp [collapseFrom, visible, collapse]
  | cons head rest ih =>
    simp only [List.cons_append, collapseFrom, ih]
    split
    · split <;> rfl
    · rfl

/-- Gaps do not reach over a separator, so a text may be cut before or after they are collapsed. -/
theorem pieces_collapse {separator : Char} (visible : isGap separator = false) (text : List Char) :
    pieces separator (collapse text) = (pieces separator text).map collapse := by
  induction text using pieces_induction separator with
  | last text free =>
    rw [pieces_of_not_mem free, pieces_of_not_mem (not_mem_collapse visible free)]
    rfl
  | more first later free ih =>
    rw [collapse, collapseFrom_append visible, pieces_append, pieces_append, List.map_append, ih,
      pieces_of_not_mem free, ← collapse, pieces_of_not_mem (not_mem_collapse visible free)]
    rfl

theorem dropEnd_collapseFrom {p : Char → Bool} (gaps : ∀ c, isGap c = true → p c = false)
    (inGap : Bool) (text : List Char) :
    dropEnd p (collapseFrom inGap text) = collapseFrom inGap (dropEnd p text) := by
  induction text generalizing inGap with
  | nil => rfl
  | cons c rest ih =>
    by_cases gap : isGap c = true
    · have kept : dropEnd p (c :: rest) = c :: dropEnd p rest := by
        rw [dropEnd_cons, gaps c gap]
        simp
      have space : dropEnd p (' ' :: collapseFrom true rest) =
          ' ' :: dropEnd p (collapseFrom true rest) := by
        rw [dropEnd_cons, gaps ' ' rfl]
        simp
      rw [kept, collapseFrom, collapseFrom, if_pos gap, if_pos gap]
      split
      · exact ih true
      · rw [space, ih]
    · have nothing : collapseFrom false (dropEnd p rest) = [] ↔ dropEnd p rest = [] := by
        cases dropEnd p rest with
        | nil => exact ⟨fun _ => rfl, fun _ => rfl⟩
        | cons head others =>
          simp only [collapseFrom]
          split <;> simp
      rw [collapseFrom, if_neg gap, dropEnd_cons, dropEnd_cons, ih]
      simp only [nothing]
      split
      · rfl
      · rw [collapseFrom, if_neg gap]

theorem isEmpty_collapseFrom (inGap : Bool) (text : List Char) :
    isEmpty (collapseFrom inGap text) = isEmpty text := by
  induction text generalizing inGap with
  | nil => rfl
  | cons c rest ih =>
    have whole (inGap : Bool) : isEmpty (c :: rest) =
        (isBlank c && isEmpty (collapseFrom inGap rest)) := by
      rw [ih]
      rfl
    unfold collapseFrom
    split
    · next gap =>
      have blank : isBlank c = true := by
        rcases Bool.or_eq_true_iff.mp gap with same | same <;> rw [eq_of_beq same] <;> rfl
      rw [whole true, blank]
      split <;> rfl
    · rw [whole false]
      rfl

theorem isEmpty_dropEnd {p : Char → Bool} (blank : ∀ c, p c = true → isBlank c = true)
    (text : List Char) : isEmpty (dropEnd p text) = isEmpty text := by
  induction text with
  | nil => rfl
  | cons c rest ih =>
    have whole : isEmpty (c :: rest) = (isBlank c && isEmpty (dropEnd p rest)) := by
      rw [ih]
      rfl
    rw [dropEnd_cons, whole]
    split
    · next all =>
      rw [all.1, blank c all.2]
      rfl
    · rfl

theorem isEmpty_pieces {separator : Char} (blank : isBlank separator = true) (text : List Char) :
    (pieces separator text).all isEmpty = isEmpty text := by
  induction text with
  | nil => rfl
  | cons c rest ih =>
    have whole : isEmpty (c :: rest) = (isBlank c && (pieces separator rest).all isEmpty) := by
      rw [ih]
      rfl
    rw [pieces, whole]
    split
    · next same =>
      rw [same, blank]
      rfl
    · cases parts : pieces separator rest with
      | nil => exact absurd parts (pieces_ne_nil separator rest)
      | cons piece others => simp [isEmpty, Bool.and_assoc]

theorem mem_of_mem_rows {text row : List Char} (member : row ∈ rows text) {c : Char}
    (inside : c ∈ row) : c ∈ text ∨ c = ' ' := by
  obtain ⟨piece, cut, rfl⟩ := List.mem_map.mp member
  exact mem_of_mem_collapseFrom (mem_of_mem_pieces cut (mem_of_mem_dropEnd inside))

end AttributeGrammar.Text
