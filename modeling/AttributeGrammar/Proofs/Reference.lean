import AttributeGrammar.Reference
import Mathlib.Data.List.Basic
import Mathlib.Data.List.TakeWhile

/-! What the scanner finds in a text.
A reference is a whole word and digits in brackets behind it. The scanner finds all of them, in the
order in which they stand, unless one of them has too many digits.
-/
namespace AttributeGrammar

/-- `name[digits]` stands in the text behind `before`; no more of the word stands there. -/
structure ReferenceAt (text before name digits after : List Char) : Prop where
  split : text = before ++ name ++ '[' :: digits ++ ']' :: after
  named : name ≠ []
  word : ∀ c ∈ name, isWord c = true
  whole : ∀ c ∈ before.getLast?, isWord c = false
  numbered : digits ≠ []
  decimal : ∀ c ∈ digits, isDigit c = true

def decimalValue (digits : List Char) : Nat :=
  digits.foldl (fun value c => value * 10 + (c.toNat - '0'.toNat)) 0

def HasLongReference (text : List Char) : Prop :=
  ∃ before name digits after, ReferenceAt text before name digits after ∧ digitLimit < digits.length

namespace Reference

def ofParts (before name digits : List Char) : Reference :=
  ⟨String.ofList name, decimalValue digits, before.length,
    before.length + name.length + digits.length + 2⟩

/-- The references of the text in the order in which they stand. -/
structure Listed (text : List Char) (references : List Reference) : Prop where
  mem_iff : ∀ reference, reference ∈ references ↔ ∃ before name digits after,
    ReferenceAt text before name digits after ∧ reference = ofParts before name digits
  ordered : references.Pairwise fun earlier later => earlier.beyond ≤ later.first

end Reference

theorem takeWhile_split {p : Char → Bool} {first later : List Char}
    (inside : ∀ c ∈ first, p c = true) (outside : ∀ c ∈ later.head?, p c = false) :
    (first ++ later).takeWhile p = first ∧ (first ++ later).dropWhile p = later := by
  rw [List.takeWhile_append_of_pos inside, List.dropWhile_append_of_pos inside]
  cases later with
  | nil => simp
  | cons c rest =>
    have stops : p c = false := outside c rfl
    simp [stops]

private theorem isWord_closing : isWord ']' = false := by decide

private theorem isDigit_closing : isDigit ']' = false := by decide

private theorem isDigit_opening : isDigit '[' = false := by decide

private theorem filterMap_digitValue? {digits : List Char} (decimal : ∀ c ∈ digits, isDigit c = true) :
    digits.filterMap Text.digitValue? = digits.map fun c => c.toNat - '0'.toNat := by
  induction digits with
  | nil => rfl
  | cons c rest ih =>
    have digit : ('0' ≤ c && c ≤ '9') = true := decimal c List.mem_cons_self
    have low : c.toNat < 0x80 := by
      obtain ⟨_, le⟩ : '0' ≤ c ∧ c ≤ '9' := by simpa using digit
      have number : c.toNat ≤ 57 := le
      omega
    have value : Text.digitValue? c = some (c.toNat - '0'.toNat) := by
      rw [Text.digitValue?, if_pos low, if_pos digit]
      rfl
    rw [List.filterMap_cons_some value, List.map_cons,
      ih fun other member => decimal other (List.mem_cons_of_mem _ member)]

theorem natural_digits {digits : List Char} (decimal : ∀ c ∈ digits, isDigit c = true) :
    Text.natural (digits.filterMap Text.digitValue?) =
      if digits.length ≤ digitLimit then .ok (decimalValue digits)
      else .error (.numeralTooLong digits.length) := by
  rw [filterMap_digitValue? decimal, Text.natural, List.length_map]
  simp only [Text.valueOfDigits, decimalValue, List.foldl_map]

/-- The longest word at the end of what was passed, and what stands before it. -/
theorem word_split (passed : List Char) :
    passed.reverse = (passed.dropWhile isWord).reverse ++ (passed.takeWhile isWord).reverse ∧
      (∀ c ∈ (passed.takeWhile isWord).reverse, isWord c = true) ∧
      ∀ c ∈ (passed.dropWhile isWord).reverse.getLast?, isWord c = false := by
  refine ⟨?_, fun c member => List.mem_takeWhile_imp (List.mem_reverse.mp member), fun c last => ?_⟩
  · rw [← List.reverse_append, List.takeWhile_append_dropWhile]
  · rw [List.getLast?_reverse] at last
    have stops := List.head?_dropWhile_not isWord passed
    rw [Option.mem_def.mp last] at stops
    simpa using stops

namespace Scanner

theorem referenceAt_of_atBracket? {passed rest name digits after : List Char}
    (found : atBracket? passed rest = some (name, digits, after)) :
    ∃ before, ReferenceAt (passed.reverse ++ '[' :: rest) before name digits after ∧
      passed.reverse = before ++ name := by
  unfold atBracket? at found
  split at found
  · next behind closing =>
    dsimp only at found
    split at found
    · cases found
    · next filled =>
      obtain ⟨rfl, rfl, rfl⟩ : _ ∧ _ ∧ _ := by simpa using found
      obtain ⟨before, word, whole⟩ := word_split passed
      have number : rest = rest.takeWhile isDigit ++ ']' :: behind := by
        rw [← closing, List.takeWhile_append_dropWhile]
      simp only [Bool.or_eq_true, not_or, List.isEmpty_iff] at filled
      refine ⟨(passed.dropWhile isWord).reverse, ⟨?_, filled.1, word, whole, filled.2,
        fun c member => List.mem_takeWhile_imp member⟩, before⟩
      rw [before]
      conv_lhs => rw [number]
      simp
  · cases found

private theorem atBracket?_of_referenceAt {passed rest before name digits after : List Char}
    (stands : ReferenceAt (passed.reverse ++ '[' :: rest) before name digits after)
    (ending : passed.reverse = before ++ name) :
    atBracket? passed rest = some (name, digits, after) := by
  have rest_eq : rest = digits ++ ']' :: after := by
    have split := stands.split
    rw [ending] at split
    simpa using split
  have passed_eq : passed = name.reverse ++ before.reverse := by
    rw [← List.reverse_append, ← ending, List.reverse_reverse]
  have word : passed.takeWhile isWord = name.reverse := by
    rw [passed_eq]
    apply (takeWhile_split _ _).1
    · exact fun c member => stands.word c (List.mem_reverse.mp member)
    · exact fun c first => stands.whole c (by rwa [List.head?_reverse] at first)
  obtain ⟨number, closing⟩ : rest.takeWhile isDigit = digits ∧
      rest.dropWhile isDigit = ']' :: after := by
    rw [rest_eq]
    apply takeWhile_split stands.decimal
    intro c first
    obtain rfl : ']' = c := by simpa using first
    exact isDigit_closing
  unfold atBracket?
  simp [word, number, closing, stands.named, stands.numbered]

private theorem atBracket?_eq_some_iff {passed rest name digits after : List Char} :
    atBracket? passed rest = some (name, digits, after) ↔
      ∃ before, ReferenceAt (passed.reverse ++ '[' :: rest) before name digits after ∧
        passed.reverse = before ++ name :=
  ⟨referenceAt_of_atBracket?, fun ⟨_, stands, ending⟩ => atBracket?_of_referenceAt stands ending⟩

theorem all_nil (lastEnd : Nat) (passed : List Char) : all ⟨lastEnd, passed, []⟩ = .ok [] := by
  rw [all]
  rfl

theorem nextFrom_pass {c : Char} {passed rest : List Char}
    (nothing : (if c = '[' then atBracket? passed rest else none) = none) (lastEnd : Nat) :
    nextFrom lastEnd passed (c :: rest) = nextFrom lastEnd (c :: passed) rest := by
  rw [nextFrom, nothing]

theorem nextFrom_found {passed rest name digits after : List Char}
    (found : atBracket? passed rest = some (name, digits, after)) (lastEnd : Nat) :
    nextFrom lastEnd passed ('[' :: rest) = if digits.length ≤ digitLimit then
      .ok (some ⟨String.ofList name, decimalValue digits, lastEnd + passed.length - name.length,
          lastEnd + passed.length + digits.length + 2⟩,
        ⟨lastEnd + passed.length + digits.length + 2, [], after⟩)
      else .error (.numeralTooLong digits.length) := by
  obtain ⟨_, stands, _⟩ := atBracket?_eq_some_iff.mp found
  rw [nextFrom, if_pos rfl, found]
  dsimp only
  rw [natural_digits stands.decimal]
  split <;> rfl

private theorem all_pass {c : Char} {lastEnd : Nat} {passed rest : List Char}
    (nothing : (if c = '[' then atBracket? passed rest else none) = none) :
    all ⟨lastEnd, passed, c :: rest⟩ = all ⟨lastEnd, c :: passed, rest⟩ := by
  have same : next ⟨lastEnd, passed, c :: rest⟩ = next ⟨lastEnd, c :: passed, rest⟩ :=
    nextFrom_pass nothing lastEnd
  rw [all, all, same]

private theorem all_found {lastEnd : Nat} {passed rest name digits after : List Char}
    (found : atBracket? passed rest = some (name, digits, after)) :
    all ⟨lastEnd, passed, '[' :: rest⟩ = if digits.length ≤ digitLimit then
      (all ⟨lastEnd + passed.length + digits.length + 2, [], after⟩).map
        (⟨String.ofList name, decimalValue digits, lastEnd + passed.length - name.length,
          lastEnd + passed.length + digits.length + 2⟩ :: ·)
      else .error (.numeralTooLong digits.length) := by
  rw [all, next, nextFrom_found found]
  by_cases short : digits.length ≤ digitLimit
  · rw [if_pos short, if_pos short]
  · rw [if_neg short, if_neg short]

/-- What the scanner has left behind does not reach into the next word. -/
theorem atBracket?_append {consumed : List Char} (boundary : ∀ c ∈ consumed.getLast?, isWord c = false)
    (passed rest : List Char) :
    atBracket? (passed ++ consumed.reverse) rest = atBracket? passed rest := by
  have word : (passed ++ consumed.reverse).takeWhile isWord = passed.takeWhile isWord := by
    induction passed with
    | nil =>
      cases ending : consumed.getLast? with
      | none => simp [List.getLast?_eq_none_iff.mp ending]
      | some c =>
        have stops := boundary c ending
        rw [← List.head?_reverse] at ending
        obtain ⟨rest, same⟩ := List.head?_eq_some_iff.mp ending
        simp [same, stops]
    | cons c rest ih => simp only [List.cons_append, List.takeWhile_cons, ih]
  rw [atBracket?, atBracket?, word]

end Scanner

/-- The result of scanning a text from a place on: all references with a bracket from there on, in
their order, or the first that is too long. -/
def Scans (text : List Char) (least : Nat) : Except Fault (List Reference) → Prop
  | .ok references =>
    (∀ reference, reference ∈ references ↔ ∃ before name digits after,
      ReferenceAt text before name digits after ∧ least ≤ (before ++ name).length ∧
        reference = Reference.ofParts before name digits) ∧
    (∀ before name digits after, ReferenceAt text before name digits after →
      least ≤ (before ++ name).length → digits.length ≤ digitLimit) ∧
    references.Pairwise fun earlier later => earlier.beyond ≤ later.first
  | .error fault => ∃ before name digits after, ReferenceAt text before name digits after ∧
    digitLimit < digits.length ∧ fault = .numeralTooLong digits.length

namespace ReferenceAt
variable {text before name digits after : List Char}

theorem atBracket? (stands : ReferenceAt text before name digits after) :
    Scanner.atBracket? (before ++ name).reverse (digits ++ ']' :: after) =
      some (name, digits, after) := by
  rw [Scanner.atBracket?_eq_some_iff, List.reverse_reverse]
  have same : before ++ name ++ '[' :: (digits ++ ']' :: after) = text := by
    rw [stands.split]
    simp
  rw [same]
  exact ⟨before, stands, rfl⟩

/-- A bracket ends at most one word, so a reference is known by the place of its bracket. -/
theorem found (stands : ReferenceAt text before name digits after) {consumed passed rest : List Char}
    {c : Char} (split : text = consumed ++ passed.reverse ++ c :: rest)
    (boundary : ∀ c ∈ consumed.getLast?, isWord c = false)
    (here : (before ++ name).length = (consumed ++ passed.reverse).length) :
    c = '[' ∧ Scanner.atBracket? passed rest = some (name, digits, after) ∧
      before ++ name = consumed ++ passed.reverse := by
  have whole : before ++ name ++ '[' :: (digits ++ ']' :: after) =
      consumed ++ passed.reverse ++ c :: rest := by
    rw [← split, stands.split]
    simp
  obtain ⟨front, back⟩ := List.append_inj whole here
  obtain ⟨rfl, rfl⟩ : '[' = c ∧ digits ++ ']' :: after = rest := by simpa using back
  have known := stands.atBracket?
  rw [front, List.reverse_append, List.reverse_reverse,
    Scanner.atBracket?_append boundary] at known
  exact ⟨rfl, known, front⟩

/-- A reference with its bracket behind a closing bracket stands behind it as a whole. -/
theorem behind (stands : ReferenceAt text before name digits after) {consumed rest : List Char}
    (split : text = consumed ++ ']' :: rest) (later : consumed.length < (before ++ name).length) :
    consumed.length + 1 ≤ before.length := by
  by_contra short
  have closing : text[consumed.length]? = some ']' := by simp [split]
  rw [stands.split, List.append_assoc, List.append_assoc] at closing
  rw [List.getElem?_append_right (by omega), List.getElem?_append_left
    (by simp only [List.length_append] at later; omega)] at closing
  have word := stands.word ']' (List.mem_of_getElem? closing)
  rw [isWord_closing] at word
  cases word

theorem opening (stands : ReferenceAt text before name digits after) :
    text[(before ++ name).length]? = some '[' := by
  rw [stands.split, List.append_assoc, List.append_assoc]
  simp [← List.append_assoc]

/-- The next reference begins behind the closing bracket. -/
theorem next (stands : ReferenceAt text before name digits after)
    {other word number rest : List Char} (further : ReferenceAt text other word number rest)
    (later : (before ++ name).length < (other ++ word).length) :
    before.length + name.length + digits.length + 2 ≤ other.length := by
  let consumed := before ++ name ++ '[' :: digits
  have split : text = consumed ++ ']' :: after := by simp [stands.split, consumed]
  have length : consumed.length = before.length + name.length + digits.length + 1 := by
    simp [consumed]
    omega
  have beyond : consumed.length < (other ++ word).length := by
    by_contra within
    have bracket := further.opening
    rw [split] at bracket
    rcases Nat.lt_or_eq_of_le (Nat.le_of_not_lt within) with inside | last
    · obtain ⟨place, here⟩ : ∃ place, (other ++ word).length = (before ++ name).length + 1 + place :=
        ⟨(other ++ word).length - (before ++ name).length - 1, by omega⟩
      rw [List.getElem?_append_left inside, here] at bracket
      have digit : digits[place]? = some '[' := by
        simpa [consumed, List.getElem?_append_right, Nat.add_assoc, Nat.add_comm 1] using bracket
      have decimal := stands.decimal '[' (List.mem_of_getElem? digit)
      rw [isDigit_opening] at decimal
      cases decimal
    · simp [last] at bracket
  have whole := further.behind split beyond
  omega

theorem unique (stands : ReferenceAt text before name digits after)
    {other word number rest : List Char} (further : ReferenceAt text other word number rest)
    (same : (before ++ name).length = (other ++ word).length) :
    other = before ∧ word = name ∧ number = digits := by
  have split : text = [] ++ (before ++ name).reverse.reverse ++ '[' :: (digits ++ ']' :: after) := by
    simp [stands.split]
  obtain ⟨_, found, front⟩ := further.found split (by simp) (by simp [← same])
  rw [stands.atBracket?] at found
  obtain ⟨rfl, rfl, rfl⟩ : name = word ∧ digits = number ∧ after = rest := by simpa using found
  exact ⟨by simpa using front, rfl, rfl⟩

/-- A reference with the same bracket is the same one; any later one stands behind the closing
bracket. -/
theorem same_or_behind (stands : ReferenceAt text before name digits after)
    {other word number rest : List Char} (further : ReferenceAt text other word number rest)
    (least : (before ++ name).length ≤ (other ++ word).length) :
    (other = before ∧ word = name ∧ number = digits) ∨
      before.length + name.length + digits.length + 2 ≤ other.length := by
  rcases Nat.lt_or_eq_of_le least with later | same
  · exact Or.inr (stands.next further later)
  · exact Or.inl (stands.unique further same)

/-- The text can be cut behind a reference, since no word goes on behind its bracket. -/
theorem exists_cut (stands : ReferenceAt text before name digits after) :
    ∃ further, text = further ++ after ∧
      further.length = before.length + name.length + digits.length + 2 ∧
      ∀ c ∈ further.getLast?, isWord c = false := by
  refine ⟨before ++ name ++ '[' :: digits ++ [']'], ?_, ?_, fun c last => ?_⟩
  · rw [stands.split]
    simp
  · simp only [List.length_append, List.length_cons, List.length_nil]
    omega
  · rw [List.getLast?_concat] at last
    obtain rfl : ']' = c := Option.some.inj last
    exact isWord_closing

end ReferenceAt

theorem Scans.congr {text : List Char} {least other : Nat} {result : Except Fault (List Reference)}
    (scans : Scans text least result)
    (same : ∀ before name digits after, ReferenceAt text before name digits after →
      (other ≤ (before ++ name).length ↔ least ≤ (before ++ name).length)) :
    Scans text other result := by
  cases result with
  | error fault => exact scans
  | ok references =>
    obtain ⟨members, short, ordered⟩ := scans
    refine ⟨fun reference => ?_, fun before name digits after stands later =>
      short before name digits after stands ((same _ _ _ _ stands).mp later), ordered⟩
    rw [members]
    constructor
    · rintro ⟨before, name, digits, after, stands, later, rfl⟩
      exact ⟨before, name, digits, after, stands, (same _ _ _ _ stands).mpr later, rfl⟩
    · rintro ⟨before, name, digits, after, stands, later, rfl⟩
      exact ⟨before, name, digits, after, stands, (same _ _ _ _ stands).mp later, rfl⟩

theorem Scans.cons {text before name digits after : List Char} {references : List Reference}
    (stands : ReferenceAt text before name digits after) (short : digits.length ≤ digitLimit)
    (scans : Scans text (before.length + name.length + digits.length + 2) (.ok references)) :
    Scans text (before ++ name).length
      (.ok (Reference.ofParts before name digits :: references)) := by
  obtain ⟨members, others, ordered⟩ := scans
  have beyond {other : List Char} (word : List Char)
      (behind : before.length + name.length + digits.length + 2 ≤ other.length) :
      before.length + name.length + digits.length + 2 ≤ (other ++ word).length := by
    rw [List.length_append]
    omega
  refine ⟨fun reference => ?_, fun other word number rest further least => ?_,
    List.pairwise_cons.mpr ⟨fun reference member => ?_, ordered⟩⟩
  · rw [List.mem_cons, members]
    constructor
    · rintro (rfl | ⟨other, word, number, rest, further, least, rfl⟩)
      · exact ⟨before, name, digits, after, stands, Nat.le_refl _, rfl⟩
      · refine ⟨other, word, number, rest, further, ?_, rfl⟩
        simp only [List.length_append] at least ⊢
        omega
    · rintro ⟨other, word, number, rest, further, least, rfl⟩
      rcases stands.same_or_behind further least with ⟨rfl, rfl, rfl⟩ | behind
      · exact Or.inl rfl
      · exact Or.inr ⟨other, word, number, rest, further, beyond word behind, rfl⟩
  · rcases stands.same_or_behind further least with ⟨rfl, rfl, rfl⟩ | behind
    · exact short
    · exact others other word number rest further (beyond word behind)
  · obtain ⟨other, word, number, rest, further, least, rfl⟩ := (members reference).mp member
    exact stands.next further (by simp only [List.length_append] at least ⊢; omega)

theorem Scans.map_cons {text before name digits after : List Char}
    {result : Except Fault (List Reference)} (stands : ReferenceAt text before name digits after)
    (short : digits.length ≤ digitLimit)
    (scans : Scans text (before.length + name.length + digits.length + 2) result) :
    Scans text (before ++ name).length
      (result.map (Reference.ofParts before name digits :: ·)) := by
  cases result with
  | error fault => exact scans
  | ok references => exact scans.cons stands short

theorem Scans.tail {text before name digits : List Char} {least : Nat} {references : List Reference}
    (later : least ≤ (before ++ name).length)
    (scans : Scans text least (.ok (Reference.ofParts before name digits :: references))) :
    Scans text (before.length + name.length + digits.length + 2) (.ok references) := by
  obtain ⟨members, short, ordered⟩ := scans
  obtain ⟨next, ordered⟩ := List.pairwise_cons.mp ordered
  refine ⟨fun reference => ⟨fun member => ?_, ?_⟩, fun other word number rest further least => ?_,
    ordered⟩
  · have beyond := next reference member
    obtain ⟨other, word, number, rest, further, _, rfl⟩ :=
      (members reference).mp (List.mem_cons_of_mem _ member)
    refine ⟨other, word, number, rest, further, ?_, rfl⟩
    exact Nat.le_trans beyond (by simp [Reference.ofParts])
  · rintro ⟨other, word, number, rest, further, least, rfl⟩
    have listed := (members _).mpr ⟨other, word, number, rest, further, by
      simp only [List.length_append] at later least ⊢
      omega, rfl⟩
    refine (List.mem_cons.mp listed).resolve_left fun same => ?_
    have first : other.length = before.length := congrArg Reference.first same
    have named : word = name := String.ofList_injective (congrArg Reference.name same)
    rw [List.length_append, first, named] at least
    omega
  · refine short other word number rest further ?_
    simp only [List.length_append] at later least ⊢
    omega

namespace Scanner

private theorem scans_nil {text before : List Char} (split : text = before ++ []) :
    Scans text before.length (.ok []) := by
  have notLater {front name digits after : List Char}
      (stands : ReferenceAt text front name digits after) :
      ¬ before.length ≤ (front ++ name).length := by
    have total := congrArg List.length (stands.split.symm.trans split)
    simp only [List.length_append, List.length_cons, List.length_nil] at total ⊢
    omega
  refine ⟨fun reference => ⟨fun member => ?_, ?_⟩, ?_, List.Pairwise.nil⟩
  · cases member
  · rintro ⟨_, _, _, _, stands, later, _⟩
    exact absurd later (notLater stands)
  · exact fun _ _ _ _ stands later => absurd later (notLater stands)

private theorem scans_pass {text consumed passed rest : List Char} {c : Char}
    {result : Except Fault (List Reference)} (split : text = consumed ++ passed.reverse ++ c :: rest)
    (boundary : ∀ c ∈ consumed.getLast?, isWord c = false)
    (nothing : (if c = '[' then atBracket? passed rest else none) = none)
    (scans : Scans text (consumed ++ (c :: passed).reverse).length result) :
    Scans text (consumed ++ passed.reverse).length result := by
  apply scans.congr
  intro before name digits after stands
  have length : (consumed ++ (c :: passed).reverse).length =
      (consumed ++ passed.reverse).length + 1 := by
    simp [Nat.add_assoc]
  rw [length]
  refine ⟨fun least => Nat.lt_of_le_of_ne least fun same => ?_, Nat.le_of_succ_le⟩
  obtain ⟨rfl, known, _⟩ := stands.found split boundary same.symm
  rw [if_pos rfl, known] at nothing
  cases nothing

private theorem referenceAt_of_found {text consumed passed rest name digits after : List Char}
    {c : Char} (split : text = consumed ++ passed.reverse ++ c :: rest)
    (boundary : ∀ c ∈ consumed.getLast?, isWord c = false)
    (found : (if c = '[' then atBracket? passed rest else none) = some (name, digits, after)) :
    c = '[' ∧ atBracket? passed rest = some (name, digits, after) ∧
      ∃ before, ReferenceAt text before name digits after ∧
        consumed ++ passed.reverse = before ++ name := by
  obtain ⟨rfl, here⟩ : c = '[' ∧ atBracket? passed rest = some (name, digits, after) := by
    split at found
    · next bracket => exact ⟨bracket, found⟩
    · cases found
  have whole := here
  rw [← atBracket?_append boundary, atBracket?_eq_some_iff] at whole
  obtain ⟨before, stands, front⟩ := whole
  have same : (passed ++ consumed.reverse).reverse ++ '[' :: rest = text := by simp [split]
  rw [same] at stands
  exact ⟨rfl, here, before, stands, by simpa using front⟩

/-- The induction is on what is left of the text. The scanner has cut off what stands before the
last reference, so the invariant says that no word reaches over that cut. -/
theorem scans_all {text consumed passed rest : List Char}
    (split : text = consumed ++ passed.reverse ++ rest)
    (boundary : ∀ c ∈ consumed.getLast?, isWord c = false) :
    Scans text (consumed ++ passed.reverse).length (all ⟨consumed.length, passed, rest⟩) := by
  induction length : rest.length using Nat.strong_induction_on generalizing consumed passed rest with
  | _ size ih =>
  subst length
  cases rest with
  | nil =>
    rw [all_nil]
    exact scans_nil split
  | cons c rest =>
    cases found : (if c = '[' then atBracket? passed rest else none) with
    | none =>
      have next : text = consumed ++ (c :: passed).reverse ++ rest := by
        rw [split]
        simp
      have further := ih rest.length (Nat.lt_succ_self _) next boundary rfl
      rw [← all_pass found] at further
      exact scans_pass split boundary found further
    | some parts =>
      obtain ⟨name, digits, after⟩ := parts
      obtain ⟨rfl, here, before, stands, front⟩ := referenceAt_of_found split boundary found
      have length : consumed.length + passed.length = before.length + name.length := by
        simpa using congrArg List.length front
      rw [all_found here, length, front]
      by_cases short : digits.length ≤ digitLimit
      · -- behind the reference the scanner starts anew, with nothing passed
        obtain ⟨further, cut, beyond, closed⟩ := stands.exists_cut
        have behind : text = further ++ ([] : List Char).reverse ++ after := by simpa using cut
        have fewer : after.length < ('[' :: rest).length := by
          have total := congrArg List.length (split.symm.trans behind)
          simp only [List.length_append, List.length_reverse, List.length_cons, List.length_nil]
            at total ⊢
          omega
        have later := ih after.length fewer behind closed rfl
        rw [List.reverse_nil, List.append_nil, beyond] at later
        rw [if_pos short, Nat.add_sub_cancel]
        exact later.map_cons stands short
      · rw [if_neg short]
        exact ⟨before, name, digits, after, stands, Nat.lt_of_not_le short, rfl⟩

end Scanner

namespace Reference
variable {text : List Char}

theorem scans_scan (text : List Char) : Scans text 0 (scan text) := by
  have start : text = [] ++ ([] : List Char).reverse ++ text := by simp
  exact Scanner.scans_all start (by simp)

theorem scan_cases (text : List Char) :
    (∃ references, scan text = .ok references ∧ Listed text references ∧ ¬ HasLongReference text) ∨
      (∃ digits, scan text = .error (.numeralTooLong digits)) ∧ HasLongReference text := by
  have scans := scans_scan text
  cases result : scan text with
  | ok references =>
    rw [result] at scans
    obtain ⟨members, short, ordered⟩ := scans
    refine Or.inl ⟨references, rfl, ⟨by simpa using members, ordered⟩, ?_⟩
    rintro ⟨before, name, digits, after, stands, long⟩
    exact absurd (short before name digits after stands (Nat.zero_le _)) (Nat.not_le_of_lt long)
  | error fault =>
    rw [result] at scans
    obtain ⟨before, name, digits, after, stands, long, rfl⟩ := scans
    exact Or.inr ⟨⟨_, rfl⟩, before, name, digits, after, stands, long⟩

end Reference
end AttributeGrammar
