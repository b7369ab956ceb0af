import AttributeGrammar.Proofs.Reference
import Mathlib

/-! References as the matches of a regular expression.
The scanner goes from bracket to bracket and looks for the name before and the digits behind it. What it
finds are the matches of `[A-Za-z0-9_]+\[[0-9]+\]` that a search from left to right finds, each from where
the one before ended, and it comes to an end on every text.
-/
namespace AttributeGrammar

namespace Pattern

/-! ### The expression -/

def oneOf (characters : List Char) : RegularExpression Char :=
  characters.foldr (fun c others => .char c + others) 0

def oneOrMore (part : RegularExpression Char) : RegularExpression Char := part * part.star

def charactersBetween (first last : Char) : List Char :=
  (List.range (last.toNat + 1 - first.toNat)).map fun place => Char.ofNat (first.toNat + place)

def digitCharacters : List Char := charactersBetween '0' '9'

def wordCharacters : List Char :=
  charactersBetween 'A' 'Z' ++ charactersBetween 'a' 'z' ++ digitCharacters ++ ['_']

/-- `[A-Za-z0-9_]+\[[0-9]+\]` -/
def reference : RegularExpression Char :=
  oneOrMore (oneOf wordCharacters) * .char '[' * oneOrMore (oneOf digitCharacters) * .char ']'

private theorem mem_oneOf {characters word : List Char} :
    word ∈ (oneOf characters).matches' ↔ ∃ c ∈ characters, word = [c] := by
  induction characters with
  | nil => simp [oneOf, Language.notMem_zero]
  | cons c rest ih =>
    change word ∈ ({[c]} : Language Char) + (oneOf rest).matches' ↔ _
    rw [Language.mem_add, ih, List.exists_mem_cons_iff]
    rfl

private theorem mem_oneOrMore {characters word : List Char} :
    word ∈ (oneOrMore (oneOf characters)).matches' ↔
      word ≠ [] ∧ ∀ c ∈ word, c ∈ characters := by
  rw [oneOrMore, RegularExpression.matches'_mul, RegularExpression.matches'_star, Language.mem_mul]
  constructor
  · rintro ⟨_, first, _, ⟨parts, rfl, others⟩, rfl⟩
    obtain ⟨c, known, rfl⟩ := mem_oneOf.mp first
    refine ⟨by simp, fun other member => ?_⟩
    rcases List.mem_cons.mp member with rfl | later
    · exact known
    · obtain ⟨part, present, inside⟩ := List.mem_flatten.mp later
      obtain ⟨_, listed, rfl⟩ := mem_oneOf.mp (others part present)
      rwa [List.mem_singleton.mp inside]
  · rintro ⟨filled, known⟩
    obtain ⟨c, rest, rfl⟩ := List.exists_cons_of_ne_nil filled
    refine ⟨[c], mem_oneOf.mpr ⟨c, known c List.mem_cons_self, rfl⟩, rest,
      ⟨rest.map fun c => [c], ?_, fun part member => ?_⟩, rfl⟩
    · rw [← List.flatMap_def, List.flatMap_singleton']
    · obtain ⟨other, present, rfl⟩ := List.mem_map.mp member
      exact mem_oneOf.mpr ⟨other, known other (List.mem_cons_of_mem _ present), rfl⟩

private theorem mem_charactersBetween {first last c : Char} (valid : last.toNat < 0xd800) :
    c ∈ charactersBetween first last ↔ first ≤ c ∧ c ≤ last := by
  change _ ↔ first.toNat ≤ c.toNat ∧ c.toNat ≤ last.toNat
  rw [charactersBetween, List.mem_map]
  constructor
  · rintro ⟨place, inside, rfl⟩
    rw [List.mem_range] at inside
    have number : (Char.ofNat (first.toNat + place)).toNat = first.toNat + place := by
      rw [Char.toNat_ofNat, if_pos (Or.inl (by omega))]
    omega
  · rintro ⟨above, below⟩
    refine ⟨c.toNat - first.toNat, List.mem_range.mpr (by omega), ?_⟩
    rw [Nat.add_sub_cancel' above, Char.ofNat_toNat]

private theorem mem_digitCharacters {c : Char} : c ∈ digitCharacters ↔ isDigit c = true := by
  rw [digitCharacters, mem_charactersBetween (by decide)]
  simp [isDigit]

private theorem mem_wordCharacters {c : Char} : c ∈ wordCharacters ↔ isWord c = true := by
  simp only [wordCharacters, digitCharacters, List.mem_append, List.mem_singleton, isWord,
    mem_charactersBetween (show 'Z'.toNat < 0xd800 by decide),
    mem_charactersBetween (show 'z'.toNat < 0xd800 by decide),
    mem_charactersBetween (show '9'.toNat < 0xd800 by decide), Bool.or_eq_true, Bool.and_eq_true,
    decide_eq_true_eq, beq_iff_eq]
  tauto

/-- What the expression matches is a word and digits in brackets behind it. -/
theorem mem_reference {word : List Char} : word ∈ reference.matches' ↔
    ∃ name digits, (name ≠ [] ∧ ∀ c ∈ name, isWord c = true) ∧
      (digits ≠ [] ∧ ∀ c ∈ digits, isDigit c = true) ∧ word = name ++ '[' :: digits ++ [']'] := by
  simp only [reference, RegularExpression.matches'_mul, RegularExpression.matches'_char,
    Language.mem_mul, mem_oneOrMore, mem_wordCharacters, mem_digitCharacters]
  constructor
  · rintro ⟨_, ⟨_, ⟨name, word, _, rfl, rfl⟩, digits, number, rfl⟩, _, rfl, rfl⟩
    exact ⟨name, digits, word, number, by simp⟩
  · rintro ⟨name, digits, word, number, rfl⟩
    exact ⟨_, ⟨_, ⟨name, word, _, rfl, rfl⟩, digits, number, rfl⟩, _, rfl, by simp⟩

/-- In a match the name stands before the bracket. -/
def nameOf (word : List Char) : List Char := word.takeWhile (· != '[')

def digitsOf (word : List Char) : List Char := ((word.dropWhile (· != '[')).drop 1).dropLast

private theorem parts_of_word {name digits : List Char} (word : ∀ c ∈ name, isWord c = true) :
    nameOf (name ++ '[' :: digits ++ [']']) = name ∧
      digitsOf (name ++ '[' :: digits ++ [']']) = digits := by
  have whole : name ++ '[' :: digits ++ [']'] = name ++ ('[' :: (digits ++ [']'])) := by simp
  have different : ∀ c ∈ name, (c != '[') = true := by
    intro c member
    rw [bne_iff_ne]
    rintro rfl
    exact absurd (word '[' member) (by decide)
  have bracket : ∀ c ∈ ('[' :: (digits ++ [']'])).head?, (c != '[') = false := by simp
  obtain ⟨before, behind⟩ := takeWhile_split different bracket
  rw [nameOf, digitsOf, whole, before, behind]
  simp

end Pattern

namespace Reference
variable {text before name digits after : List Char} {least first beyond : Nat}

/-! ### Matches in a text -/

/-- The text from `first` to before `beyond` is a match. -/
def Matches (text : List Char) (first beyond : Nat) : Prop :=
  beyond ≤ text.length ∧ text.extract first beyond ∈ Pattern.reference.matches'

def ofMatch (text : List Char) (first beyond : Nat) : Reference :=
  ⟨String.ofList (Pattern.nameOf (text.extract first beyond)),
    decimalValue (Pattern.digitsOf (text.extract first beyond)), first, beyond⟩

def HasLongMatch (text : List Char) : Prop :=
  ∃ first beyond, Matches text first beyond ∧
    digitLimit < (Pattern.digitsOf (text.extract first beyond)).length

/-- The match that a search from `least` on finds: no other begins before it, and none that begins with it
is longer. -/
structure FirstMatch (text : List Char) (least first beyond : Nat) : Prop where
  begins : least ≤ first
  here : Matches text first beyond
  leftmost : ∀ other ending, least ≤ other → Matches text other ending → first ≤ other
  longest : ∀ ending, Matches text first ending → ending ≤ beyond

/-- The references that one search after the other finds, each from where the match before ended. -/
inductive Successive (text : List Char) : Nat → List Reference → Prop
  | done {least : Nat} (nothing : ∀ first beyond, least ≤ first → ¬ Matches text first beyond) :
      Successive text least []
  | found {least first beyond : Nat} {rest : List Reference}
      (here : FirstMatch text least first beyond) (further : Successive text beyond rest) :
      Successive text least (ofMatch text first beyond :: rest)

theorem Successive.unique {references others : List Reference}
    (searched : Successive text least references) (again : Successive text least others) :
    references = others := by
  induction searched generalizing others with
  | done nothing =>
    cases again with
    | done => rfl
    | found here => exact absurd here.here (nothing _ _ here.begins)
  | @found least first beyond rest here _ ih =>
    cases again with
    | done nothing => exact absurd here.here (nothing _ _ here.begins)
    | @found _ otherFirst otherBeyond _ there further =>
      obtain rfl : first = otherFirst := Nat.le_antisymm
        (here.leftmost _ _ there.begins there.here) (there.leftmost _ _ here.begins here.here)
      obtain rfl : beyond = otherBeyond := Nat.le_antisymm
        (there.longest _ here.here) (here.longest _ there.here)
      rw [ih further]

private theorem extract_append (before word after : List Char) :
    (before ++ word ++ after).extract before.length (before.length + word.length) = word := by
  simp

/-- A word before a bracket can be filled up to the left. -/
theorem exists_whole (before after : List Char) (word : name ≠ [] ∧ ∀ c ∈ name, isWord c = true)
    (number : digits ≠ [] ∧ ∀ c ∈ digits, isDigit c = true) :
    ∃ start front, before = start ++ front ∧
      ReferenceAt (before ++ name ++ '[' :: digits ++ ']' :: after) start (front ++ name) digits
        after := by
  obtain ⟨split, filled, whole⟩ := word_split before.reverse
  rw [List.reverse_reverse] at split
  refine ⟨_, _, split, ⟨?_, by simp [word.1], fun c member => ?_, whole, number.1, number.2⟩⟩
  · conv_lhs => rw [split]
    simp
  · rcases List.mem_append.mp member with front | inside
    · exact filled c front
    · exact word.2 c inside

private theorem extract_tail {front : List Char}
    (stands : ReferenceAt text before (front ++ name) digits after) :
    text.extract (before.length + front.length)
      (before.length + (front ++ name).length + digits.length + 2) = name ++ '[' :: digits ++ [']'] := by
  have split : text = (before ++ front) ++ (name ++ '[' :: digits ++ [']']) ++ after := by
    rw [stands.split]
    simp
  have length : (before ++ front).length + (name ++ '[' :: digits ++ [']']).length =
      before.length + (front ++ name).length + digits.length + 2 := by
    simp only [List.length_append, List.length_cons, List.length_nil]
    omega
  have between := extract_append (before ++ front) (name ++ '[' :: digits ++ [']']) after
  rwa [← split, length, List.length_append] at between

private theorem matches_iff : Matches text first beyond ↔ ∃ before front name digits after,
    ReferenceAt text before (front ++ name) digits after ∧ name ≠ [] ∧
      first = before.length + front.length ∧
      beyond = before.length + (front ++ name).length + digits.length + 2 := by
  constructor
  · rintro ⟨inside, matched⟩
    obtain ⟨name, digits, word, number, whole⟩ := Pattern.mem_reference.mp matched
    have split : text = text.take first ++ name ++ '[' :: digits ++
        ']' :: (text.drop first).drop (beyond - first) := by
      have parts : text.take first ++ (text.extract first beyond ++
          (text.drop first).drop (beyond - first)) = text := by
        rw [List.extract_eq_take_drop, List.take_append_drop, List.take_append_drop]
      conv_lhs => rw [← parts, whole]
      simp
    have length : beyond - first = name.length + digits.length + 2 := by
      have total := congrArg List.length whole
      simp only [List.extract_eq_take_drop, List.length_take, List.length_drop, List.length_append,
        List.length_cons, List.length_nil] at total
      omega
    -- A match may begin within a word, of which the reference has the whole.
    obtain ⟨start, front, filled, stands⟩ := exists_whole (text.take first) _ word number
    rw [← split] at stands
    have place : first = start.length + front.length := by
      have total := congrArg List.length filled
      rw [List.length_take, List.length_append] at total
      omega
    refine ⟨start, front, name, digits, _, stands, word.1, place, ?_⟩
    rw [List.length_append]
    omega
  · rintro ⟨before, front, name, digits, after, stands, named, rfl, rfl⟩
    have word : ∀ c ∈ name, isWord c = true := fun c member =>
      stands.word c (List.mem_append_right _ member)
    constructor
    · rw [stands.split]
      simp only [List.length_append, List.length_cons]
      omega
    · rw [extract_tail stands]
      exact Pattern.mem_reference.mpr
        ⟨name, digits, ⟨named, word⟩, ⟨stands.numbered, stands.decimal⟩, rfl⟩

private theorem matches_whole (stands : ReferenceAt text before name digits after) :
    Matches text before.length (before.length + name.length + digits.length + 2) :=
  matches_iff.mpr ⟨before, [], name, digits, after, stands, stands.named, rfl, rfl⟩

private theorem parts_of_match {front : List Char}
    (stands : ReferenceAt text before (front ++ name) digits after) :
    Pattern.nameOf (text.extract (before.length + front.length)
        (before.length + (front ++ name).length + digits.length + 2)) = name ∧
      Pattern.digitsOf (text.extract (before.length + front.length)
        (before.length + (front ++ name).length + digits.length + 2)) = digits := by
  rw [extract_tail stands]
  exact Pattern.parts_of_word fun c member => stands.word c (List.mem_append_right _ member)

private theorem ofMatch_of_referenceAt (stands : ReferenceAt text before name digits after) :
    ofMatch text before.length (before.length + name.length + digits.length + 2) =
      ofParts before name digits := by
  obtain ⟨namePart, digitsPart⟩ := @parts_of_match text before name digits after [] stands
  rw [ofMatch, ofParts]
  congr

/-- Every match has the digits of a whole reference. -/
theorem hasLongMatch_iff : HasLongMatch text ↔ HasLongReference text := by
  constructor
  · rintro ⟨first, beyond, matched, long⟩
    obtain ⟨before, front, name, digits, after, stands, _, rfl, rfl⟩ := matches_iff.mp matched
    rw [(parts_of_match stands).2] at long
    exact ⟨before, front ++ name, digits, after, stands, long⟩
  · rintro ⟨before, name, digits, after, stands, long⟩
    refine ⟨_, _, matches_whole stands, ?_⟩
    have digitsPart := (@parts_of_match text before name digits after [] stands).2
    exact Nat.lt_of_lt_of_eq long (congrArg List.length digitsPart.symm)

/-! ### The references as successive matches -/

/-- No word reaches over the place where the search begins. -/
def Boundary (text : List Char) (least : Nat) : Prop :=
  ∀ c ∈ (text.take least).getLast?, isWord c = false

private theorem boundary_of_referenceAt (stands : ReferenceAt text before name digits after) :
    Boundary text (before.length + name.length + digits.length + 2) := by
  obtain ⟨further, split, length, closed⟩ := stands.exists_cut
  intro c last
  rw [← length, split, List.take_left] at last
  exact closed c last

private theorem Boundary.least_le (boundary : Boundary text least)
    (stands : ReferenceAt text before name digits after) (later : least ≤ (before ++ name).length) :
    least ≤ before.length := by
  by_contra within
  rw [List.length_append] at later
  have place : least - 1 - before.length < name.length := by omega
  have inside : text[least - 1]? = some name[least - 1 - before.length] := by
    rw [stands.split, List.append_assoc, List.append_assoc, List.getElem?_append_right (by omega),
      List.getElem?_append_left place, List.getElem?_eq_getElem place]
  have last : (text.take least).getLast? = some name[least - 1 - before.length] := by
    rw [List.getLast?_take, if_neg (by omega), inside, Option.some_or]
  have word := stands.word _ (List.getElem_mem place)
  rw [boundary _ last] at word
  cases word

private theorem firstMatch_of_scans {references : List Reference} (boundary : Boundary text least)
    (stands : ReferenceAt text before name digits after) (later : least ≤ (before ++ name).length)
    (scans : Scans text least (.ok (ofParts before name digits :: references))) :
    FirstMatch text least before.length (before.length + name.length + digits.length + 2) := by
  obtain ⟨members, _, ordered⟩ := scans
  have next := (List.pairwise_cons.mp ordered).1
  refine ⟨boundary.least_le stands later, ?_, fun other ending least matched => ?_,
    fun ending matched => ?_⟩
  · exact matches_whole stands
  · obtain ⟨start, front, word, number, rest, further, named, rfl, rfl⟩ := matches_iff.mp matched
    have listed := (members _).mpr ⟨start, front ++ word, number, rest, further, by
      simp only [List.length_append]
      omega, rfl⟩
    rcases List.mem_cons.mp listed with same | behind
    · have first : start.length = before.length := congrArg Reference.first same
      omega
    · have beyond : before.length + name.length + digits.length + 2 ≤ start.length := next _ behind
      omega
  · obtain ⟨start, front, word, number, rest, further, named, place, rfl⟩ := matches_iff.mp matched
    -- Only the same bracket is left: a reference with an earlier or later one is apart from this one.
    rcases Nat.lt_trichotomy (start ++ (front ++ word)).length (before ++ name).length with
      earlier | same | beyond
    · have past := further.next stands earlier
      simp only [List.length_append] at past
      omega
    · obtain ⟨rfl, rfl, rfl⟩ := further.unique stands same
      exact Nat.le_refl _
    · have past := stands.next further beyond
      omega

private theorem successive_of_scans {references : List Reference} (boundary : Boundary text least)
    (scans : Scans text least (.ok references)) : Successive text least references := by
  induction references generalizing least with
  | nil =>
    refine .done fun first beyond later matched => ?_
    obtain ⟨start, front, word, number, rest, stands, named, rfl, rfl⟩ := matches_iff.mp matched
    have listed := (scans.1 _).mpr ⟨start, front ++ word, number, rest, stands, by
      simp only [List.length_append]
      omega, rfl⟩
    cases listed
  | cons reference references ih =>
    obtain ⟨before, name, digits, after, stands, later, rfl⟩ :=
      (scans.1 reference).mp List.mem_cons_self
    rw [← ofMatch_of_referenceAt stands]
    exact .found (firstMatch_of_scans boundary stands later scans)
      (ih (boundary_of_referenceAt stands) (scans.tail later))

end Reference

namespace Scanner
variable {scanner : Scanner}

/-! ### The two loops -/

/-- What as many calls for the next reference give, one after the other on one scanner. -/
def calls : (count : Nat) → Scanner → Except Fault (List (Option Reference))
  | 0, _ => .ok []
  | count + 1, scanner => do
    let (found, behind) ← scanner.next
    let further ← calls count behind
    pure (found :: further)

private theorem rest_of_atBracket? {passed rest name digits after : List Char}
    (found : atBracket? passed rest = some (name, digits, after)) :
    rest = digits ++ ']' :: after := by
  obtain ⟨before, stands, ending⟩ := referenceAt_of_atBracket? found
  have split := stands.split
  rw [ending] at split
  simpa using split

private theorem nextFrom_cases (lastEnd : Nat) (passed rest : List Char) :
    (∃ behind, nextFrom lastEnd passed rest = .ok (none, behind) ∧ behind.rest = [] ∧
      behind.position = lastEnd + passed.length + rest.length) ∨
    (∃ reference behind, nextFrom lastEnd passed rest = .ok (some reference, behind) ∧
      behind.rest.length < rest.length ∧
      behind.position + behind.rest.length = lastEnd + passed.length + rest.length) ∨
    ∃ digits, nextFrom lastEnd passed rest = .error (.numeralTooLong digits) := by
  induction rest generalizing passed with
  | nil => exact Or.inl ⟨_, rfl, rfl, rfl⟩
  | cons c rest ih =>
    cases found : (if c = '[' then atBracket? passed rest else none) with
    | none =>
      have moved : lastEnd + (c :: passed).length + rest.length =
          lastEnd + passed.length + (c :: rest).length := by
        simp only [List.length_cons]
        omega
      rw [nextFrom_pass found, ← moved]
      rcases ih (c :: passed) with exhausted | ⟨reference, behind, went, less, place⟩ | long
      · exact Or.inl exhausted
      · exact Or.inr (Or.inl ⟨reference, behind, went, Nat.lt_succ_of_lt less, place⟩)
      · exact Or.inr (Or.inr long)
    | some parts =>
      obtain ⟨name, digits, after⟩ := parts
      obtain ⟨rfl, here⟩ : c = '[' ∧ atBracket? passed rest = some (name, digits, after) := by
        simpa using found
      have length := congrArg List.length (rest_of_atBracket? here)
      rw [List.length_append, List.length_cons] at length
      right
      rw [nextFrom_found here]
      split
      · refine Or.inl ⟨_, _, rfl, ?_, ?_⟩
        · simp only [List.length_cons]
          omega
        · simp only [position, List.length_cons, List.length_nil]
          omega
      · exact Or.inr ⟨_, rfl⟩

private theorem next_cases (scanner : Scanner) :
    (∃ behind, scanner.next = .ok (none, behind) ∧ behind.rest = [] ∧
      behind.position = scanner.position + scanner.rest.length) ∨
    (∃ reference behind, scanner.next = .ok (some reference, behind) ∧
      behind.rest.length < scanner.rest.length ∧
      behind.position + behind.rest.length = scanner.position + scanner.rest.length) ∨
    ∃ digits, scanner.next = .error (.numeralTooLong digits) :=
  nextFrom_cases scanner.lastEnd scanner.passed scanner.rest

private theorem all_at_end (ended : scanner.rest = []) : scanner.all = .ok [] := by
  obtain ⟨lastEnd, passed, rest⟩ := scanner
  obtain rfl : rest = [] := ended
  exact all_nil lastEnd passed

private theorem all_of_none {behind : Scanner} (went : scanner.next = .ok (none, behind)) :
    scanner.all = .ok [] := by
  rw [all, went]

private theorem all_of_some {reference : Reference} {behind : Scanner}
    (went : scanner.next = .ok (some reference, behind)) :
    scanner.all = behind.all.map (reference :: ·) := by
  rw [all, went]

private theorem all_of_error {fault : Fault} (went : scanner.next = .error fault) :
    scanner.all = .error fault := by
  rw [all, went]

private theorem calls_succ {found : Option Reference} {behind : Scanner}
    (went : scanner.next = .ok (found, behind)) (count : Nat) :
    scanner.calls (count + 1) = (behind.calls count).map (found :: ·) := by
  rw [calls, went]
  cases further : behind.calls count with
  | error fault => simp [further, bind, Except.bind, Except.map]
  | ok rest => simp [further, bind, Except.bind, pure, Except.pure, Except.map]

private theorem calls_of_all {references : List Reference} (searched : scanner.all = .ok references)
    (count : Nat) : scanner.calls count =
      .ok ((references.map some ++ List.replicate count none).take count) := by
  -- The first call that finds none leaves the scanner at the end, where every further one finds none.
  induction count generalizing scanner references with
  | zero => rfl
  | succ count ih =>
    rcases scanner.next_cases with ⟨behind, went, ended, _⟩ | ⟨reference, behind, went, _⟩ | ⟨_, long⟩
    · obtain rfl : [] = references := by simpa [all_of_none went] using searched
      rw [calls_succ went, ih (all_at_end ended)]
      simp [Except.map, List.replicate_succ]
    · rw [all_of_some went] at searched
      cases further : behind.all with
      | error fault => simp [further, Except.map] at searched
      | ok rest =>
        obtain rfl : reference :: rest = references := by
          simpa [further, Except.map] using searched
        rw [calls_succ went, ih further, List.replicate_succ', ← List.append_assoc]
        simp [Except.map, List.take_append]
    · rw [all_of_error long] at searched
      cases searched

/-- From any place on there are references up to one call that finds none or meets too many digits. -/
theorem all_ends (scanner : Scanner) : ∃ references : List Reference,
    references.length ≤ scanner.rest.length ∧
    scanner.calls references.length = .ok (references.map some) ∧
    ((scanner.all = .ok references ∧
        scanner.calls (references.length + 1) = .ok (references.map some ++ [none])) ∨
      ∃ digits, scanner.all = .error (.numeralTooLong digits) ∧
        scanner.calls (references.length + 1) = .error (.numeralTooLong digits)) := by
  induction size : scanner.rest.length using Nat.strong_induction_on generalizing scanner with
  | _ size ih =>
  subst size
  rcases scanner.next_cases with ⟨behind, went, _⟩ | ⟨reference, behind, went, less, _⟩ | ⟨digits, long⟩
  · refine ⟨[], Nat.zero_le _, rfl, Or.inl ⟨all_of_none went, ?_⟩⟩
    rw [List.length_nil, calls_succ went]
    rfl
  · obtain ⟨references, short, found, ending⟩ := ih _ less behind rfl
    refine ⟨reference :: references, Nat.succ_le_of_lt (Nat.lt_of_le_of_lt short less), ?_, ?_⟩
    · rw [List.length_cons, calls_succ went, found]
      rfl
    · rw [List.length_cons, calls_succ went (references.length + 1), all_of_some went]
      rcases ending with ⟨searched, last⟩ | ⟨digits, searched, last⟩
      · exact Or.inl ⟨by rw [searched]; rfl, by rw [last]; rfl⟩
      · exact Or.inr ⟨digits, by rw [searched]; rfl, by rw [last]; rfl⟩
  · refine ⟨[], Nat.zero_le _, rfl, Or.inr ⟨digits, all_of_error long, ?_⟩⟩
    rw [List.length_nil, calls, long]
    rfl

end Scanner

namespace Reference
variable {text : List Char}

private theorem not_hasLongMatch (short : text.length ≤ digitLimit) : ¬ HasLongMatch text := by
  rw [hasLongMatch_iff]
  rintro ⟨before, name, digits, after, stands, long⟩
  have total := congrArg List.length stands.split
  simp only [List.length_append, List.length_cons] at total
  omega

/-- The references of a text are the matches that one search after the other finds, unless some match has
too many digits; called for one reference after the other, a scanner gives the same and then none for
ever. On any text a call moves on, to a reference or to the end, and after no more references than there
are characters a call finds none or meets too many digits. -/
theorem scan_finds_matches (text : List Char) :
    (¬ HasLongMatch text → ∃ references, scan text = .ok references ∧
      (∀ others, Successive text 0 others ↔ others = references) ∧
      ∀ count, (Scanner.start text).calls count =
        .ok ((references.map some ++ List.replicate count none).take count)) ∧
    (∀ (scanner behind : Scanner) (found : Option Reference), scanner.next = .ok (found, behind) →
      behind.position + behind.rest.length = scanner.position + scanner.rest.length ∧
      (found = none → behind.rest = []) ∧
      (found ≠ none → behind.rest.length < scanner.rest.length)) ∧
    ∃ references : List Reference, references.length ≤ text.length ∧
      (Scanner.start text).calls references.length = .ok (references.map some) ∧
      ((scan text = .ok references ∧ (Scanner.start text).calls (references.length + 1) =
          .ok (references.map some ++ [none])) ∨
        ∃ digits, scan text = .error (.numeralTooLong digits) ∧
          (Scanner.start text).calls (references.length + 1) = .error (.numeralTooLong digits)) := by
  refine ⟨fun calm => ?_, fun scanner behind found went => ?_, (Scanner.start text).all_ends⟩
  · rw [hasLongMatch_iff] at calm
    have scans := scans_scan text
    rcases scan_cases text with ⟨references, result, _⟩ | ⟨_, long⟩
    · rw [result] at scans
      have searched := successive_of_scans (by simp [Boundary]) scans
      refine ⟨references, result, fun others => ⟨fun again => again.unique searched, ?_⟩,
        Scanner.calls_of_all result⟩
      rintro rfl
      exact searched
    · exact absurd long calm
  · rcases scanner.next_cases with ⟨_, last, ended, place⟩ | ⟨reference, _, next, less, place⟩ | ⟨_, long⟩
    · obtain ⟨rfl, rfl⟩ : none = found ∧ _ = behind := by simpa [last] using went
      simp [ended, place]
    · obtain ⟨rfl, rfl⟩ : some reference = found ∧ _ = behind := by simpa [next] using went
      simp [less, place]
    · simp [long] at went

/-- Two references without a gap, of which the second has a digit as its name, a name with an unclosed
bracket behind it, and another one at the end. -/
def unclosedBrackets : List Char := "a[1]2[3]x[y[04]z[5".toList

theorem scan_finds_matches_unclosedBrackets :
    Successive unclosedBrackets 0 [⟨"a", 1, 0, 4⟩, ⟨"2", 3, 4, 8⟩, ⟨"y", 4, 10, 15⟩] ∧
      (Scanner.start unclosedBrackets).calls 5 =
        .ok [some ⟨"a", 1, 0, 4⟩, some ⟨"2", 3, 4, 8⟩, some ⟨"y", 4, 10, 15⟩, none, none] := by
  have result : scan unclosedBrackets = .ok [⟨"a", 1, 0, 4⟩, ⟨"2", 3, 4, 8⟩, ⟨"y", 4, 10, 15⟩] := by
    cbv
  obtain ⟨references, found, searched, calls⟩ :=
    (scan_finds_matches unclosedBrackets).1 (not_hasLongMatch (by decide))
  obtain rfl := Except.ok.inj (result.symm.trans found)
  exact ⟨(searched _).mpr rfl, calls 5⟩

end Reference
end AttributeGrammar
