import AttributeGrammar.Proofs.OrderIndependence

/-! Rules that are written out and read again.
The names of a rule hold nothing at which a row is cut, and none of them is empty. So the row in which
they are joined by single spaces is cut to the same names, and without equations it is always in order.
-/
namespace AttributeGrammar
open Text

namespace Text

/-! ### Parts of a row -/

private theorem infix_of_mem_pieces {separator : Char} {text piece : List Char}
    (member : piece ∈ pieces separator text) : piece <:+: text ∧ separator ∉ piece := by
  induction text using pieces_induction separator with
  | last text free =>
    rw [pieces_of_not_mem free] at member
    obtain rfl := List.mem_singleton.mp member
    exact ⟨List.infix_refl _, free⟩
  | more first later free ih =>
    rw [pieces_append, pieces_of_not_mem free] at member
    rcases List.mem_cons.mp member with rfl | member
    · exact ⟨(List.prefix_append _ _).isInfix, free⟩
    · have behind : later <:+ first ++ separator :: later :=
        (List.suffix_cons separator later).trans (List.suffix_append _ _)
      exact ⟨(ih member).1.trans behind.isInfix, (ih member).2⟩

/-- No piece is empty where no separator stands at an end or beside another. -/
theorem nil_not_mem_pieces {separator : Char} {text : List Char} (filled : text ≠ [])
    (first : ∀ c ∈ text.head?, c ≠ separator) (last : ∀ c ∈ text.getLast?, c ≠ separator)
    (single : text.IsChain fun c next => ¬ (c = separator ∧ next = separator)) :
    [] ∉ pieces separator text := by
  induction text using pieces_induction separator with
  | last text free =>
    rw [pieces_of_not_mem free]
    simpa using filled.symm
  | more front later free ih =>
    have front_ne : front ≠ [] := by
      rintro rfl
      exact first separator rfl rfl
    have later_ne : later ≠ [] := by
      rintro rfl
      exact last separator (by simp) rfl
    rw [pieces_append, pieces_of_not_mem free, List.singleton_append, List.mem_cons, not_or]
    have behind := single.right_of_append
    refine ⟨front_ne.symm, ih later_ne (fun c head same => ?_) (fun c ends => ?_) behind.tail⟩
    · obtain ⟨d, rest, rfl⟩ := List.exists_cons_of_ne_nil later_ne
      exact behind.rel ⟨rfl, (Option.some.inj head).trans same⟩
    · exact last c (by rw [List.getLast?_append_of_ne_nil _ (by simp),
        List.getLast?_cons_of_ne_nil later_ne]; exact ends)

/-! ### Blanks at the ends -/

private theorem prefix_dropEnd (p : Char → Bool) (text : List Char) : dropEnd p text <+: text :=
  List.reverse_suffix.mp (by rw [dropEnd, List.reverse_reverse]; exact List.dropWhile_suffix p)

private theorem infix_strip (text : List Char) : strip text <:+: text :=
  (prefix_dropEnd _ _).isInfix.trans (List.dropWhile_suffix isBlank).isInfix

private theorem infix_rulePart (row : List Char) : rulePart row <:+: row :=
  (List.takeWhile_prefix _).isInfix

private theorem dropEnd_eq_self {p : Char → Bool} {text : List Char}
    (last : ∀ c ∈ text.getLast?, p c = false) : dropEnd p text = text := by
  rw [← List.head?_reverse] at last
  have kept : text.reverse.dropWhile p = text.reverse := by
    cases ends : text.reverse with
    | nil => rfl
    | cons c rest =>
      rw [ends] at last
      exact List.dropWhile_cons_of_neg (by simp [last c rfl])
  rw [dropEnd, kept, List.reverse_reverse]

private theorem getLast?_strip {text : List Char} : ∀ c ∈ (strip text).getLast?, isBlank c = false := by
  intro c ends
  rw [strip, dropEnd, List.getLast?_reverse] at ends
  have stops := List.head?_dropWhile_not isBlank (text.dropWhile isBlank).reverse
  rw [ends] at stops
  simpa using stops

private theorem head?_strip {text : List Char} : ∀ c ∈ (strip text).head?, isBlank c = false := by
  intro c first
  have stops := List.head?_dropWhile_not isBlank text
  cases visible : text.dropWhile isBlank with
  | nil =>
    rw [strip, visible] at first
    cases first
  | cons d rest =>
    rw [visible] at stops
    have front : isBlank d = false := by simpa using stops
    rw [strip, visible, dropEnd_cons, if_neg (by simp [front])] at first
    rw [← Option.some.inj first]
    exact front

private theorem strip_strip (text : List Char) : strip (strip text) = strip text := by
  have visible : (strip text).dropWhile isBlank = strip text := by
    cases stripped : strip text with
    | nil => rfl
    | cons c rest =>
      have front : isBlank c = false := head?_strip c (by rw [stripped]; rfl)
      exact List.dropWhile_cons_of_neg (by simp [front])
  rw [strip, visible, dropEnd_eq_self getLast?_strip]

private theorem strip_cons {c : Char} (blank : isBlank c = true) (text : List Char) :
    strip (c :: text) = strip text := by
  rw [strip, List.dropWhile_cons_of_pos blank, strip]

private theorem strip_concat {c : Char} (blank : isBlank c = true) (text : List Char) :
    strip (text ++ [c]) = strip text := by
  rw [strip, strip, List.dropWhile_append]
  split
  · next empty =>
    rw [List.isEmpty_iff.mp empty, List.dropWhile_cons_of_pos blank]
    rfl
  · simp [dropEnd, List.dropWhile_cons_of_pos blank]

/-! ### Gaps -/

/-- There is no gap but single spaces. -/
structure Collapsed (text : List Char) : Prop where
  tabless : '\t' ∉ text
  single : text.IsChain fun c next => ¬ (c = ' ' ∧ next = ' ')

theorem Collapsed.part {text part : List Char} (collapsed : Collapsed text)
    (inside : part <:+: text) : Collapsed part :=
  ⟨fun member => collapsed.tabless (inside.subset member), collapsed.single.infix inside⟩

private theorem collapsed_collapseFrom (inGap : Bool) (text : List Char) :
    Collapsed (collapseFrom inGap text) ∧
      (inGap = true → ∀ c ∈ (collapseFrom inGap text).head?, c ≠ ' ') := by
  induction text generalizing inGap with
  | nil => exact ⟨⟨List.not_mem_nil, .nil⟩, fun _ c first => by cases first⟩
  | cons c rest ih =>
    unfold collapseFrom
    split
    · obtain ⟨collapsed, front⟩ := ih true
      split
      · exact ⟨collapsed, fun _ => front rfl⟩
      · next outside =>
        refine ⟨⟨?_, ?_⟩, fun inside => absurd inside outside⟩
        · simpa using collapsed.tabless
        · exact collapsed.single.cons fun next first both => front rfl next first both.2
    · next visible =>
      obtain ⟨collapsed, _⟩ := ih false
      have other : c ≠ ' ' ∧ c ≠ '\t' := by simpa [isGap] using visible
      refine ⟨⟨?_, ?_⟩, fun _ next first => ?_⟩
      · simpa using ⟨other.2.symm, collapsed.tabless⟩
      · exact collapsed.single.cons fun next _ both => other.1 both.1
      · exact Option.some.inj first ▸ other.1

private theorem Collapsed.collapseFrom_eq {text : List Char} (collapsed : Collapsed text) {inGap : Bool}
    (front : inGap = true → ∀ c ∈ text.head?, c ≠ ' ') : collapseFrom inGap text = text := by
  induction text generalizing inGap with
  | nil => rfl
  | cons c rest ih =>
    have behind := collapsed.part (List.suffix_cons c rest).isInfix
    unfold collapseFrom
    split
    · next gap =>
      have space : c = ' ' := by
        rcases Bool.or_eq_true_iff.mp gap with same | same
        · exact eq_of_beq same
        · exact absurd (by simp [eq_of_beq same]) collapsed.tabless
      rw [if_neg fun inside => front inside c rfl space, space, ih behind fun _ next first both => ?_]
      exact (List.isChain_cons.mp collapsed.single).1 next first ⟨space, both⟩
    · rw [ih behind (fun outside => by cases outside)]

private theorem part_of_mem_rows {text row : List Char} (member : row ∈ rows text) :
    Collapsed row ∧ '\n' ∉ row := by
  obtain ⟨piece, cut, rfl⟩ := List.mem_map.mp member
  have collapsed : Collapsed (collapse text) := (collapsed_collapseFrom false text).1
  have inside := prefix_dropEnd (· == '\r') piece
  obtain ⟨part, free⟩ := infix_of_mem_pieces cut
  exact ⟨collapsed.part (inside.isInfix.trans part), fun newline => free (inside.subset newline)⟩

private theorem rows_of_collapsed {row : List Char} (collapsed : Collapsed row) (single : '\n' ∉ row)
    (last : ∀ c ∈ row.getLast?, isBlank c = false) : rows row = [row] := by
  have same : collapse row = row := collapsed.collapseFrom_eq (by simp)
  have kept : dropEnd (· == '\r') row = row := by
    apply dropEnd_eq_self
    intro c ends
    have visible := last c ends
    by_contra other
    obtain rfl : c = '\r' := by simpa using other
    cases visible
  rw [rows, same, pieces_of_not_mem single, List.map_singleton, kept]

private theorem nil_not_mem_words {text : List Char} (collapsed : Collapsed text)
    (filled : isEmpty text = false) : [] ∉ words text := by
  have space {c : Char} (visible : isBlank c = false) : c ≠ ' ' := by
    rintro rfl
    cases visible
  apply nil_not_mem_pieces
  · intro empty
    rw [strip_eq_nil_iff.mp empty] at filled
    cases filled
  · exact fun c first => space (head?_strip c first)
  · exact fun c ends => space (getLast?_strip c ends)
  · exact (collapsed.part (infix_strip text)).single

end Text

/-- The name can stand in a rule: it is not empty, and there is nothing in it at which a row is cut. -/
structure NamesSymbol (name : List Char) : Prop where
  filled : name ≠ []
  free : ∀ c ∈ " \t\n:[];=".toList, c ∉ name
  noArrow : NoArrow name

namespace KeepsRule
variable {row left right : List Char}

private theorem infix_sides (keeps : KeepsRule row left right) :
    left <:+: rulePart row ∧ right <:+: rulePart row := by
  rw [keeps.arrow.split]
  exact ⟨(List.prefix_append _ _).isInfix, ⟨left ++ "->".toList, [], by simp⟩⟩

/-- The names of the rule that a row with these sides keeps. -/
def names (left right : List Char) : List (List Char) :=
  strip left :: if isEmpty right then [] else words right

private theorem namesSymbol_of_side {side name : List Char} (collapsed : Collapsed row)
    (newline : '\n' ∉ row) (inside : side <:+: rulePart row) (noArrow : NoArrow side)
    (part : name <:+: side) (filled : name ≠ []) (space : ' ' ∉ name) (allowed : Allowed name) :
    NamesSymbol name := by
  have ofRule : name <:+: rulePart row := part.trans inside
  have ofRow : name <:+: row := ofRule.trans (infix_rulePart row)
  refine ⟨filled, ?_, noArrow.part part⟩
  have tab : '\t' ∉ name := (collapsed.part ofRow).tabless
  have colon : ':' ∉ name := fun member => not_mem_rulePart row (ofRule.subset member)
  have breaks : '\n' ∉ name := fun member => newline (ofRow.subset member)
  intro c cuts member
  have forbidden := allowed c member
  simp only [forbiddenInSymbols] at forbidden
  simp at cuts
  rcases cuts with rfl | rfl | rfl | rfl | cuts
  · exact space member
  · exact tab member
  · exact breaks member
  · exact colon member
  · exact forbidden (by simpa using cuts)

private theorem namesSymbol (keeps : KeepsRule row left right) (collapsed : Collapsed row)
    (newline : '\n' ∉ row) {name : List Char} (member : name ∈ names left right) :
    NamesSymbol name := by
  obtain ⟨_, leftPlain, rightPlain⟩ := oneArrow_iff.mp keeps.arrow
  rcases List.mem_cons.mp member with rfl | member
  · apply namesSymbol_of_side collapsed newline keeps.infix_sides.1 leftPlain (infix_strip left) ?_
      keeps.single keeps.leftAllowed
    rw [Ne, strip_eq_nil_iff, keeps.named]
    exact Bool.false_ne_true
  · cases blank : isEmpty right with
    | true =>
      rw [blank] at member
      cases member
    | false =>
      rw [blank] at member
      obtain ⟨part, space⟩ := infix_of_mem_pieces member
      have inside : name <:+: right := part.trans (infix_strip right)
      have ofRow := keeps.infix_sides.2.trans (infix_rulePart row)
      apply namesSymbol_of_side collapsed newline keeps.infix_sides.2 rightPlain inside ?_ space
        fun c here => keeps.rightAllowed c (inside.subset here)
      intro empty
      exact nil_not_mem_words (collapsed.part ofRow) blank (empty ▸ member)

/-- The row in which the names are joined: the sides without blanks at their ends. -/
def written (left right : List Char) : List Char :=
  strip left ++ ' ' :: '-' :: '>' :: ' ' :: strip right

private theorem not_mem_written (keeps : KeepsRule row left right) {c : Char}
    (absent : c ∉ rulePart row) (other : c ∉ [' ', '-', '>']) : c ∉ written left right := by
  have first : c ∉ strip left :=
    fun member => absent (keeps.infix_sides.1.subset (mem_of_mem_strip member))
  have last : c ∉ strip right :=
    fun member => absent (keeps.infix_sides.2.subset (mem_of_mem_strip member))
  simp only [List.mem_cons, List.not_mem_nil, or_false, not_or] at other
  simp [written, first, last, other]

private theorem collapsed_written (keeps : KeepsRule row left right) (collapsed : Collapsed row) :
    Collapsed (written left right) := by
  have rule := collapsed.part (infix_rulePart row)
  have first := (rule.part keeps.infix_sides.1).part (infix_strip left)
  have last := (rule.part keeps.infix_sides.2).part (infix_strip right)
  refine ⟨keeps.not_mem_written rule.tabless (by decide), ?_⟩
  have behind : (' ' :: strip right).IsChain fun c next => ¬ (c = ' ' ∧ next = ' ') := by
    apply last.single.cons
    rintro next head ⟨_, rfl⟩
    cases head?_strip ' ' head
  apply first.single.append
  · exact .cons_cons (by simp) (.cons_cons (by simp) (.cons_cons (by simp) behind))
  · rintro c ends _ _ ⟨rfl, _⟩
    cases getLast?_strip ' ' ends

private theorem getLast?_written (filled : isEmpty right = false) :
    ∀ c ∈ (written left right).getLast?, isBlank c = false := by
  have filled : strip right ≠ [] := by
    rw [Ne, strip_eq_nil_iff, filled]
    exact Bool.false_ne_true
  have cut : written left right = (strip left ++ [' ', '-', '>', ' ']) ++ strip right := by
    simp [written]
  rw [cut, List.getLast?_append_of_ne_nil _ filled]
  exact getLast?_strip

private theorem keepsRule_written (keeps : KeepsRule row left right) :
    KeepsRule (written left right) (strip left ++ [' ']) (' ' :: strip right) := by
  obtain ⟨_, leftPlain, rightPlain⟩ := oneArrow_iff.mp keeps.arrow
  have rule : rulePart (written left right) = written left right :=
    rulePart_of_not_mem (keeps.not_mem_written (not_mem_rulePart row) (by decide))
  have same : strip (strip left ++ [' ']) = strip left := by rw [strip_concat rfl, strip_strip]
  constructor
  · rw [rule, oneArrow_iff]
    refine ⟨by simp [written], ?_, ?_⟩
    · intro before after arrow
      rcases List.eq_nil_or_concat after with rfl | ⟨shorter, last, rfl⟩
      · have last := congrArg List.getLast? arrow
        simp at last
      · have cut : strip left ++ [' '] = (before ++ '-' :: '>' :: shorter) ++ [last] := by
          simpa using arrow
        exact leftPlain.part (infix_strip left) before shorter (List.append_inj_left' cut rfl)
    · intro before after arrow
      cases before with
      | nil => cases arrow
      | cons c before =>
        exact rightPlain.part (infix_strip right) before after (List.cons.inj arrow).2
  · rw [← isEmpty_strip, same, isEmpty_strip]
    exact keeps.named
  · rw [same]
    exact keeps.single
  · rw [same]
    exact keeps.leftAllowed
  · exact allowed_strip.mp (by
      rw [strip_cons rfl, strip_strip]
      exact allowed_strip.mpr keeps.rightAllowed)

private theorem rows_written (keeps : KeepsRule row left right) (collapsed : Collapsed row)
    (newline : '\n' ∉ row) (filled : isEmpty right = false) :
    rows (written left right) = [written left right] := by
  apply rows_of_collapsed (keeps.collapsed_written collapsed) _ (getLast?_written filled)
  apply keeps.not_mem_written _ (by decide)
  exact fun inside => newline ((infix_rulePart row).subset inside)

private theorem names_written (left right : List Char) :
    names (strip left ++ [' ']) (' ' :: strip right) = names left right := by
  have blank : isEmpty (' ' :: strip right) = isEmpty right := by
    rw [← isEmpty_strip, strip_cons rfl, isEmpty_strip, isEmpty_strip]
  rw [names, names, blank, words, words, strip_cons rfl, strip_strip, strip_concat rfl, strip_strip]

private theorem accepted_written (configuration : Configuration) (keeps : KeepsRule row left right) :
    Accepted configuration (written left right) ∧
      ¬ RowStumbles configuration (written left right) := by
  have free := keeps.not_mem_written (not_mem_rulePart row) (by decide)
  have absent : ∀ equations, ¬ HasEquations (written left right) equations := by
    intro equations has
    rw [has.1] at free
    simp at free
  refine ⟨⟨by simp [List.count_eq_zero.mpr free], _, _, keeps.keepsRule_written,
    fun equations has => absurd has (absent equations)⟩, ?_⟩
  rintro ⟨_, _, _, equations, has, _⟩
  exact absent equations has

end KeepsRule

namespace RowDraft

private theorem symbolNames_sides {row left right : List Char} (keeps : KeepsRule row left right) :
    (sides (rulePart row)).symbolNames = (KeepsRule.names left right).map String.ofList := by
  have pair := arrowPieces_eq_pair_iff.mpr keeps.arrow
  have leftSide : readLeftSide (rulePart row) left = .ok (String.ofList (strip left)) :=
    readLeftSide_eq_ok_iff.mpr ⟨keeps.named, keeps.single, keeps.leftAllowed, rfl⟩
  have allowed := containsAny_eq_false_iff.mpr keeps.rightAllowed
  rw [sides, pair]
  dsimp only
  rw [leftSide, readRightSide, KeepsRule.names, allowed]
  cases isEmpty right <;> rfl

end RowDraft

/-! ### A rule as it is written -/

private theorem Rule.text_eq {rule : Rule} {first : String} {names : List String} (filled : names ≠ [])
    (named : rule.symbolNames = first :: names) :
    rule.text = .ok (String.intercalate " " (first :: "->" :: names)) := by
  obtain ⟨symbols⟩ := rule
  cases symbols with
  | nil => cases named
  | cons left right =>
    obtain ⟨rfl, rfl⟩ := List.cons.inj named
    have nonempty : right.isEmpty = false := by simpa using filled
    simp [Rule.text, Rule.left, Rule.right, nonempty, bind, Except.bind, pure, Except.pure]

/-- Joined by spaces, the names are the row. -/
theorem KeepsRule.toList_written (left right : List Char) :
    (String.intercalate " " (String.ofList (strip left) :: "->" ::
      (words right).map String.ofList)).toList = KeepsRule.written left right := by
  have joined : [' '].intercalate (words right) = strip right := by
    rw [words, pieces_eq_splitOn, List.intercalate_splitOn]
  have names : ((words right).map String.ofList).map String.toList = words right := by
    simp [Function.comp_def]
  obtain ⟨first, others, parts⟩ : ∃ first others, words right = first :: others :=
    List.exists_cons_of_ne_nil (pieces_ne_nil ' ' (strip right))
  have first_eq : (String.ofList (strip left)).toList = strip left := String.toList_ofList
  have space : " ".toList = [' '] := rfl
  have arrow : "->".toList = ['-', '>'] := rfl
  rw [String.toList_intercalate, List.map_cons, List.map_cons, names, first_eq, space, arrow,
    List.intercalate_cons_cons, parts, List.intercalate_cons_cons, ← parts, joined]
  simp [KeepsRule.written]

private theorem Rule.text_written {rule : Rule} {left right : List Char}
    (filled : isEmpty right = false)
    (names : rule.symbolNames = (KeepsRule.names left right).map String.ofList) :
    ∃ written, rule.text = .ok written ∧ written.toList = KeepsRule.written left right := by
  have listed : rule.symbolNames =
      String.ofList (strip left) :: (words right).map String.ofList := by
    rw [names, KeepsRule.names, filled]
    rfl
  have nonempty : (words right).map String.ofList ≠ [] := by
    simpa [words] using pieces_ne_nil ' ' (strip right)
  exact ⟨_, Rule.text_eq nonempty listed, KeepsRule.toList_written left right⟩

private theorem Rule.filled_of_right {rule : Rule} {left right : List Char} (nonempty : rule.right ≠ [])
    (names : rule.symbolNames = (KeepsRule.names left right).map String.ofList) :
    isEmpty right = false := by
  by_contra blank
  have one : rule.symbolNames.length = 1 := by
    rw [names, KeepsRule.names, if_pos (Bool.eq_true_of_not_eq_false blank)]
    rfl
  apply nonempty
  rw [Rule.right, List.drop_eq_nil_iff, ← one, Rule.symbolNames, List.length_map]

/-! ### Without attributes -/

/-- Without attributes there is nothing to find, and the second round repeats the first. -/
theorem Grammar.stableRound_of_attributeless {grammar : Grammar} (ready : grammar.Ready)
    (attributeless : ∀ name, grammar.attributesOf name = []) : grammar.stableRound 1 = true := by
  have nothing (round : Nat) (name : String) : (grammar.family round name).entries = [] := by
    rw [List.eq_nil_iff_forall_not_mem]
    intro d member
    obtain ⟨_, _, source, _, _, found, _⟩ := ready.within_family round name d member
    simp [attributeless, Text.sorted] at found
  rw [Grammar.stableRound, List.all_eq_true]
  intro name _
  have same : (grammar.family 2 name).sameKeys (grammar.family 1 name) = true := by
    rw [OrderedMap.sameKeys_iff]
    simp [OrderedMap.keys, nothing]
  simp [Grammar.snapshot, same]

namespace Study
variable {reading : Reading} {text : List Char} {draft grammar : Grammar}

private theorem Drafts.attributesOf_eq_nil (drafts : Drafts reading text draft grammar)
    (free : ∀ row ∈ rows text, ':' ∉ row) (name : String) : grammar.attributesOf name = [] := by
  rw [List.eq_nil_iff_forall_not_mem]
  intro owned member
  obtain ⟨row, present, _, _, named, _⟩ := drafts.namesAttribute member
  have announced : ∃ equations, HasEquations row equations := by
    rcases named with ⟨equations, has, _⟩ | ⟨_, ⟨equations, has, _⟩, _⟩
    · exact ⟨equations, has⟩
    · exact ⟨equations, has⟩
  obtain ⟨equations, has⟩ := announced
  apply free row present
  rw [has.1]
  simp

private theorem Parses.ends_of_attributeless (parses : Parses reading text grammar)
    (attributeless : ∀ name, grammar.attributesOf name = [])
    (limit : reading.analyze = true → 2 ≤ reading.roundLimit) :
    ∃ study, ofCharacters reading text = .ok study ∧ study.grammar = grammar := by
  rcases parses.whole with plain | runs
  · exact ⟨_, plain, rfl⟩
  · rcases runs.cases with ⟨_, analysis, _, _, _, ended, _⟩ | ⟨unstable, _⟩
    · exact ⟨_, ended, rfl⟩
    · have asked : reading.analyze = true := (Bool.and_eq_true_iff.mp runs.asked).1
      have stable := Grammar.stableRound_of_attributeless parses.ready attributeless
      rw [unstable 1 (limit asked)] at stable
      cases stable

/-- Every rule has the names that some row keeps. -/
theorem Drafts.exists_row (drafts : Drafts reading text draft grammar) {rule : Rule}
    (kept : rule ∈ grammar.rules) : ∃ row ∈ rows text, ∃ left right, KeepsRule row left right ∧
      rule.symbolNames = (KeepsRule.names left right).map String.ofList := by
  obtain ⟨number, found⟩ := List.mem_iff_getElem?.mp kept
  obtain ⟨old, present, same⟩ := Sequence.before_of_getElem? drafts.alike found
  obtain ⟨row, member, made, left, right, keeps⟩ :=
    drafts.fromRows.exists_keeps (List.mem_of_getElem? present)
  have calm := drafts.fromRows.calm row member
  obtain ⟨sides, _, names⟩ := Grammar.names_rowDraft calm keeps.filled.2
  refine ⟨row, member, left, right, keeps, ?_⟩
  rw [← same.names, names old made, sides, RowDraft.symbolNames_sides keeps]

/-- A text that is one row in order, without equations, is read to the rule of that row. -/
theorem read_row {row left right : List Char} (single : rows text = [row])
    (keeps : KeepsRule row left right) (free : ':' ∉ row)
    (accepted : Accepted reading.configuration row) (calm : ¬ RowStumbles reading.configuration row)
    (limit : reading.analyze = true → 2 ≤ reading.roundLimit) :
    ∃ study, ofCharacters reading text = .ok study ∧ study.grammar.errors = [] ∧
      study.grammar.rules.map Rule.symbolNames = [(KeepsRule.names left right).map String.ofList] := by
  have only {other : List Char} (member : other ∈ rows text) : other = row := by
    rw [single] at member
    exact List.mem_singleton.mp member
  have member : row ∈ rows text := by
    rw [single]
    exact List.mem_singleton_self row
  have quiet : ¬ ReachesLongReference reading.configuration text :=
    fun ⟨other, here, stumbles⟩ => calm (only here ▸ stumbles)
  obtain ⟨grammar, parses⟩ := exists_grammar quiet
  rcases parses.origin with ⟨blank, _⟩ | ⟨filled, draft, drafts⟩
  · rw [filled_of_keeps member keeps] at blank
    cases blank
  have attributeless := drafts.attributesOf_eq_nil fun other here => only here ▸ free
  obtain ⟨study, ended, rfl⟩ := parses.ends_of_attributeless attributeless limit
  refine ⟨study, ended, ?_, ?_⟩
  · exact drafts.errors_eq_nil_iff.mpr fun other here _ => only here ▸ accepted
  · obtain ⟨rule, made⟩ := Option.isSome_iff_exists.mp
      ((Grammar.rule_rowDraft_isSome calm).mpr ⟨left, right, keeps⟩)
    have alike := drafts.alike
    have drafted : draft.rules = [rule] := by
      rw [drafts.fromRows.rules, single]
      simp [made]
    rw [drafted] at alike
    obtain ⟨final, rules⟩ : ∃ final, study.grammar.rules = [final] :=
      List.length_eq_one_iff.mp alike.length_eq.symm
    obtain ⟨other, here, first, last, keepsOther, names⟩ :=
      drafts.exists_row (rules ▸ List.mem_singleton_self final)
    obtain rfl := only here
    obtain ⟨rfl, rfl⟩ := keepsOther.unique keeps
    rw [rules, List.map_singleton, names]

/-- No name in a kept rule is empty or holds anything at which rows are cut. So if the rule has a right
side, it is written as a row that is read without errors to one rule, and that has the same names. -/
theorem rules_survive_printing {study : Study} (ended : ofCharacters reading text = .ok study)
    {rule : Rule} (kept : rule ∈ study.grammar.rules) :
    (∀ name ∈ rule.symbolNames, NamesSymbol name.toList) ∧
    (rule.right ≠ [] → ∃ written, rule.text = .ok written ∧
      ∀ again : Reading, (again.analyze = true → 2 ≤ again.roundLimit) →
        ∃ other, ofText again written = .ok other ∧ other.grammar.errors = [] ∧
          other.grammar.rules.map Rule.symbolNames = [rule.symbolNames]) := by
  obtain ⟨grammar, parses⟩ := exists_grammar (not_reaches_of_ok ended)
  obtain rfl := parses.unique ended
  rcases parses.origin with ⟨_, blank⟩ | ⟨_, draft, drafts⟩
  · rw [blank] at kept
    cases kept
  obtain ⟨row, member, left, right, keeps, names⟩ := drafts.exists_row kept
  obtain ⟨collapsed, newline⟩ := part_of_mem_rows member
  constructor
  · intro name used
    rw [names] at used
    obtain ⟨characters, listed, rfl⟩ := List.mem_map.mp used
    rw [String.toList_ofList]
    exact keeps.namesSymbol collapsed newline listed
  · intro nonempty
    have filled := Rule.filled_of_right nonempty names
    obtain ⟨written, shown, characters⟩ := Rule.text_written filled names
    refine ⟨written, shown, fun again limit => ?_⟩
    have single := keeps.rows_written collapsed newline filled
    have free := keeps.not_mem_written (not_mem_rulePart row) (by decide)
    obtain ⟨accepted, calm⟩ := keeps.accepted_written again.configuration
    rw [ofText, characters, names, ← KeepsRule.names_written]
    exact read_row single keeps.keepsRule_written free accepted calm limit

/-- The names have parts of arrows and a space without a break; runs of gaps separate them. -/
def partsOfArrows : List Char := "S- ->> -\u00a0x \t> : v[0] = v[1]".toList

theorem rules_survive_printing_partsOfArrows : ∃ study rule written other,
    ofCharacters { roundLimit := 4 } partsOfArrows = .ok study ∧ study.grammar.rules = [rule] ∧
      (∀ name ∈ rule.symbolNames, NamesSymbol name.toList) ∧ rule.text = .ok written ∧
      ofText { roundLimit := 2 } written = .ok other ∧ other.grammar.errors = [] ∧
      other.grammar.rules.map Rule.symbolNames = [["S-", ">", "-\u00a0x", ">"]] := by
  have read : ∃ study rule, ofCharacters { roundLimit := 4 } partsOfArrows = .ok study ∧
      study.grammar.rules = [rule] ∧ rule.right ≠ [] ∧
      rule.symbolNames = ["S-", ">", "-\u00a0x", ">"] :=
    ⟨_, _, by cbv, by cbv, by cbv; simp, by cbv⟩
  obtain ⟨study, rule, ended, rules, nonempty, names⟩ := read
  obtain ⟨free, written, text, again⟩ :=
    (rules_survive_printing ended (rules ▸ List.mem_singleton_self rule)).imp_right (· nonempty)
  obtain ⟨other, readAgain, errors, same⟩ := again { roundLimit := 2 } fun _ => Nat.le_refl 2
  exact ⟨study, rule, written, other, ended, rules, free, text, readAgain, errors, names ▸ same⟩

end Study
end AttributeGrammar
