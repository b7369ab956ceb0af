import AttributeGrammar.Proofs.Encoded
import AttributeGrammar.Proofs.Rearrangement
import AttributeGrammar.Study
import Mathlib

/-! The forms in which the same text can be read.
What is read of a text depends on its rows alone. Lines and bytes come back to the text they were made
from; the rows drop a carriage return at their end, and a run of gaps is one space in them.
-/
namespace AttributeGrammar
open Text

namespace Text

/-- Every carriage return is followed at once by a line feed. -/
def ReturnsEndRows (text : List Char) : Prop :=
  ∀ before after, text = before ++ '\r' :: after → ∃ rest, after = '\n' :: rest

/-- Every carriage return with a line feed behind it is replaced by the line feed. -/
def withoutReturns : List Char → List Char
  | [] => []
  | '\r' :: '\n' :: rest => '\n' :: withoutReturns rest
  | c :: rest => c :: withoutReturns rest

/-! ### Line endings -/

theorem ReturnsEndRows.tail {c : Char} {rest : List Char} (ends : ReturnsEndRows (c :: rest)) :
    ReturnsEndRows rest := by
  rintro before after rfl
  exact ends (c :: before) after rfl

private theorem returnsEndRows_cons {c : Char} {rest : List Char} : ReturnsEndRows (c :: rest) ↔
    (c = '\r' → rest.head? = some '\n') ∧ ReturnsEndRows rest := by
  constructor
  · refine fun ends => ⟨fun same => ?_, ends.tail⟩
    obtain ⟨others, rfl⟩ := ends [] rest (by rw [same]; rfl)
    rfl
  · rintro ⟨here, later⟩ (_ | ⟨d, before⟩) after same
    · obtain ⟨rfl, rfl⟩ := List.cons.inj same
      exact List.head?_eq_some_iff.mp (here rfl)
    · exact later before after (List.cons.inj same).2

instance decidableReturnsEndRows : DecidablePred ReturnsEndRows
  | [] => .isTrue fun before after same => by simp at same
  | _ :: rest =>
    have := decidableReturnsEndRows rest
    decidable_of_iff' _ returnsEndRows_cons

private theorem lineFeeds_eq_withoutReturns {text : List Char} (ends : ReturnsEndRows text) :
    lineFeeds text = withoutReturns text := by
  fun_induction withoutReturns text with
  | case1 => rfl
  | case2 rest ih => rw [lineFeeds, ih ends.tail.tail]
  | case3 c rest other ih =>
    rw [← ih ends.tail]
    by_cases same : c = '\r'
    · obtain ⟨rest, rfl⟩ := ends [] rest (by rw [same]; rfl)
      exact absurd rfl (other rest same)
    · rw [lineFeeds]
      · exact other
      · exact same

private theorem lines_newline (rest : List Char) : lines ('\n' :: rest) = [] :: lines rest := rfl

private theorem lines_cons {c : Char} (inside : c ≠ '\n') (rest : List Char) : lines (c :: rest) =
    (lines rest).modifyHead fun row => if row = [] ∧ c = '\r' then [] else c :: row := by
  rw [lines, lines, pieces, if_neg inside]
  cases parts : pieces '\n' rest with
  | nil => exact absurd parts (pieces_ne_nil '\n' rest)
  | cons piece others => simp [dropEnd_cons]

private theorem lines_withoutReturns (text : List Char) : lines (withoutReturns text) = lines text := by
  fun_induction withoutReturns text with
  | case1 => rfl
  | case2 rest ih =>
    rw [lines_newline, ih, lines_cons (by decide), lines_newline]
    rfl
  | case3 c rest _ ih =>
    by_cases inside : c = '\n'
    · rw [inside, lines_newline, lines_newline, ih]
    · rw [lines_cons inside, lines_cons inside, ih]

private theorem rows_withoutReturns (text : List Char) : rows (withoutReturns text) = rows text := by
  rw [rows_eq, rows_eq, lines_withoutReturns]

/-! ### Gaps -/

private theorem collapseFrom_run {run : List Char} (gaps : ∀ c ∈ run, isGap c = true)
    (after : List Char) :
    collapseFrom true (run ++ after) = collapseFrom true after := by
  induction run with
  | nil => rfl
  | cons c rest ih =>
    rw [List.cons_append, collapseFrom, if_pos (gaps c List.mem_cons_self), if_pos rfl]
    exact ih fun other member => gaps other (List.mem_cons_of_mem _ member)

/-- Of a run of gaps it matters only that there is one. -/
theorem collapseFrom_replaced {run other : List Char} (filled : run ≠ []) (otherFilled : other ≠ [])
    (gaps : ∀ c ∈ run, isGap c = true) (otherGaps : ∀ c ∈ other, isGap c = true)
    (before after : List Char) (inGap : Bool) :
    collapseFrom inGap (before ++ run ++ after) = collapseFrom inGap (before ++ other ++ after) := by
  have one {run : List Char} (filled : run ≠ []) (gaps : ∀ c ∈ run, isGap c = true) (inGap : Bool) :
      collapseFrom inGap (run ++ after) = collapseFrom inGap (' ' :: after) := by
    obtain ⟨c, rest, rfl⟩ := List.exists_cons_of_ne_nil filled
    have tail := collapseFrom_run (fun other member => gaps other (List.mem_cons_of_mem _ member)) after
    have space : isGap ' ' = true := rfl
    rw [List.cons_append, collapseFrom, collapseFrom, if_pos (gaps c List.mem_cons_self), if_pos space,
      tail]
  induction before generalizing inGap with
  | nil => exact (one filled gaps inGap).trans (one otherFilled otherGaps inGap).symm
  | cons c rest ih => simp only [List.cons_append, collapseFrom, ih]

private theorem rows_replaced {run other : List Char} (filled : run ≠ []) (otherFilled : other ≠ [])
    (gaps : ∀ c ∈ run, isGap c = true) (otherGaps : ∀ c ∈ other, isGap c = true)
    (before after : List Char) : rows (before ++ run ++ after) = rows (before ++ other ++ after) := by
  rw [rows, rows, collapse, collapse,
    collapseFrom_replaced filled otherFilled gaps otherGaps before after false]

private theorem head?_replaced {c : Char} (visible : isGap c = false) {before run after : List Char}
    (filled : run ≠ []) (gaps : ∀ c ∈ run, isGap c = true)
    (head : (before ++ run ++ after).head? = some c) (other : List Char) :
    (before ++ other ++ after).head? = some c := by
  cases before with
  | nil =>
    obtain ⟨d, rest, rfl⟩ := List.exists_cons_of_ne_nil filled
    obtain rfl : d = c := Option.some.inj head
    rw [gaps d List.mem_cons_self] at visible
    cases visible
  | cons d rest => exact head

private theorem ReturnsEndRows.replaced {before run other after : List Char} (filled : run ≠ [])
    (gaps : ∀ c ∈ run, isGap c = true) (otherGaps : ∀ c ∈ other, isGap c = true)
    (ends : ReturnsEndRows (before ++ run ++ after)) : ReturnsEndRows (before ++ other ++ after) := by
  have skip {run : List Char} (gaps : ∀ c ∈ run, isGap c = true) :
      ReturnsEndRows (run ++ after) ↔ ReturnsEndRows after := by
    induction run with
    | nil => rfl
    | cons c rest ih =>
      have skipped := ih fun d member => gaps d (List.mem_cons_of_mem _ member)
      rw [List.cons_append, returnsEndRows_cons, skipped]
      refine and_iff_right fun same => ?_
      have gap := gaps c List.mem_cons_self
      rw [same] at gap
      cases gap
  induction before with
  | nil => exact (skip otherGaps).mpr ((skip gaps).mp ends)
  | cons c rest ih =>
    obtain ⟨here, later⟩ := returnsEndRows_cons.mp ends
    refine returnsEndRows_cons.mpr ⟨fun same => ?_, ih later⟩
    exact head?_replaced rfl filled gaps (here same) other

/-! ### Lines -/

private theorem head?_splitOn (text : List Char) : ∀ first ∈ (text.splitOn '\n').head?,
    ∀ c ∈ first.head?, c ∈ text.head? := by
  rw [← pieces_eq_splitOn]
  cases text with
  | nil => simp [pieces]
  | cons c rest =>
    rw [pieces]
    split
    · simp
    · split <;> simp

end Text

namespace Study
variable {reading : Reading} {text : String}

private theorem ofCharacters_congr {text other : List Char} (same : rows text = rows other) :
    ofCharacters reading text = ofCharacters reading other := by
  rw [ofCharacters, ofCharacters, ← isEmpty_rows, ← isEmpty_rows other, same]

private theorem ofLines_unmarked {lines : List String}
    (unmarked : ∀ first ∈ lines.head?, first.toList.head? ≠ some '\ufeff') :
    ofLines reading lines = ofText reading (String.intercalate "\n" lines) := by
  cases lines with
  | nil => rfl
  | cons first rest =>
    have plain := unmarked first rfl
    rw [ofLines]
    split
    · next others marked =>
      rw [marked] at plain
      exact absurd rfl plain
    · rfl

private theorem ofLines_splitOn (unmarked : text.toList.head? ≠ some '\ufeff') :
    ofLines reading ((text.toList.splitOn '\n').map String.ofList) = ofText reading text := by
  rw [ofLines_unmarked, ofText, String.toList_intercalate, List.map_map]
  · have back : String.toList ∘ String.ofList = id := funext fun _ => String.toList_ofList
    rw [back, List.map_id]
    change ofCharacters reading (['\n'].intercalate _) = _
    rw [List.intercalate_splitOn]
    rfl
  · intro first head marked
    rw [List.head?_map] at head
    obtain ⟨piece, start, rfl⟩ := Option.map_eq_some_iff.mp head
    rw [String.toList_ofList] at marked
    exact unmarked (head?_splitOn _ piece start _ marked)

private theorem ofBytes_encode {characters : List Char} {bytes : List UInt8}
    (stored : withoutMark bytes = encode characters) (ends : ReturnsEndRows characters) :
    ofBytes reading bytes = ofCharacters reading characters := by
  have read : fileText bytes = .ok (withoutReturns characters) := by
    rw [fileText, stored, decode_encode, ← lineFeeds_eq_withoutReturns ends]
  rw [ofBytes, read]
  exact ofCharacters_congr (rows_withoutReturns characters)

/-- The outcome of reading the text, its lines, its bytes with and without a byte-order mark, and the
text with line feeds alone. -/
structure EveryForm (reading : Reading) (text : String) (outcome : Except Fault Study) : Prop where
  plain : ofText reading text = outcome
  lines : ofLines reading ((text.toList.splitOn '\n').map String.ofList) = outcome
  bytes : ofBytes reading text.toUTF8.data.toList = outcome
  marked : ofBytes reading ([0xEF, 0xBB, 0xBF] ++ text.toUTF8.data.toList) = outcome
  lineFeeds : ofText reading (String.ofList (withoutReturns text.toList)) = outcome

private theorem everyForm_ofText (unmarked : text.toList.head? ≠ some '\ufeff')
    (ends : ReturnsEndRows text.toList) : EveryForm reading text (ofText reading text) := by
  refine ⟨rfl, ofLines_splitOn unmarked, ?_, ?_, ?_⟩
  · rw [toList_toUTF8]
    exact ofBytes_encode (withoutMark_encode unmarked) ends
  · rw [toList_toUTF8]
    exact ofBytes_encode (withoutMark_mark _) ends
  · rw [ofText, String.toList_ofList]
    exact ofCharacters_congr (rows_withoutReturns _)

/-- Every form of a text gives the same grammar, with the same errors and the same analysis, and so does
every form of the text with other gaps in the place of a run of gaps. -/
theorem forms_read_alike (unmarked : text.toList.head? ≠ some '\ufeff')
    (ends : ReturnsEndRows text.toList) :
    EveryForm reading text (ofText reading text) ∧
      ∀ before run after, text.toList = before ++ run ++ after → run ≠ [] →
        (∀ c ∈ run, isGap c = true) → ∀ other, other ≠ [] → (∀ c ∈ other, isGap c = true) →
          EveryForm reading (String.ofList (before ++ other ++ after)) (ofText reading text) := by
  refine ⟨everyForm_ofText unmarked ends, ?_⟩
  intro before run after cut filled gaps other otherFilled otherGaps
  have same : ofText reading (String.ofList (before ++ other ++ after)) = ofText reading text := by
    rw [ofText, ofText, String.toList_ofList, cut]
    exact ofCharacters_congr (rows_replaced otherFilled filled otherGaps gaps before after)
  rw [← same]
  apply everyForm_ofText
  · rw [String.toList_ofList]
    intro marked
    rw [cut] at unmarked
    exact unmarked (head?_replaced rfl otherFilled otherGaps marked run)
  · rw [String.toList_ofList]
    rw [cut] at ends
    exact ends.replaced filled gaps otherGaps

/-- The first row ends with a space and a carriage return, the second is blank, and the equation of the
third has no equals sign. -/
def returnsAndGaps : List Char := "S -> A : v[0] = v[1] \r\n\r\nA \t-> a : v[0]\n".toList

theorem everyForm_returnsAndGaps : ∃ study before after,
    ofCharacters { roundLimit := 4 } returnsAndGaps = .ok study ∧
      study.grammar.errors.map GrammarError.number = [3] ∧
      returnsAndGaps = before ++ [' ', '\t'] ++ after ∧
      EveryForm { roundLimit := 4 } (String.ofList (before ++ [' '] ++ after)) (.ok study) := by
  have read : ∃ study, ofCharacters { roundLimit := 4 } returnsAndGaps = .ok study ∧
      study.grammar.errors.map GrammarError.number = [3] := ⟨_, by cbv, by cbv⟩
  obtain ⟨study, read, numbers⟩ := read
  have same : (String.ofList returnsAndGaps).toList = returnsAndGaps := String.toList_ofList
  have whole : ofText { roundLimit := 4 } (String.ofList returnsAndGaps) = .ok study := by
    rw [ofText, same, read]
  have unmarked : (String.ofList returnsAndGaps).toList.head? ≠ some '\ufeff' := by
    rw [same]
    decide
  have ends : ReturnsEndRows (String.ofList returnsAndGaps).toList := by
    rw [same]
    decide
  have cut : returnsAndGaps = returnsAndGaps.take 26 ++ [' ', '\t'] ++ returnsAndGaps.drop 28 := by
    decide
  refine ⟨study, _, _, read, numbers, cut, ?_⟩
  rw [← whole]
  exact (forms_read_alike unmarked ends).2 _ _ _ (same.trans cut) (by simp) (by simp [isGap]) _
    (by simp) (by simp [isGap])

end Study
end AttributeGrammar
