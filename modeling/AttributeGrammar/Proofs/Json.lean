import AttributeGrammar.Json.Reader
import AttributeGrammar.Proofs.Reference
import Mathlib

/-! What can stop the reading of a JSON text.
Either the text is no JSON, or a number in it has a whole part of more digits than are read, or more
collections open in it than may nest.
-/
namespace AttributeGrammar.Json
open Text

def HasDigits (count : Nat) (text : List Char) : Prop :=
  ∃ digits, digits <:+: text ∧ digits.length = count ∧ ∀ c ∈ digits, isDecimalDigit c = true

def isOpening (c : Char) : Bool := c == '[' || c == '\x7b'

/-- How many collections open in a text, or seem to, within its strings. -/
def openings (text : List Char) : Nat := text.countP isOpening

/-- What reading from a place in a text comes to: a value and what is left, or one of three faults. -/
inductive Comes {Value : Type} (nesting : Nat) (input : List Char) : Read Value → Prop
  | read {value : Value} {rest : List Char} (behind : rest <:+ input) :
      Comes nesting input (.ok (value, rest))
  | malformed : Comes nesting input (.error .notJson)
  | tooLong {count : Nat} (beyond : digitLimit < count) (run : HasDigits count input) :
      Comes nesting input (.error (.numeralTooLong count))
  | tooDeep (beyond : nesting < openings input) : Comes nesting input (.error .nestedTooDeep)

namespace Comes
variable {Value Other : Type} {nesting : Nat} {input rest : List Char} {reading : Read Value}

theorem mono (comes : Comes nesting rest reading) (behind : rest <:+ input) :
    Comes nesting input reading := by
  cases comes with
  | read within => exact .read (within.trans behind)
  | malformed => exact .malformed
  | tooLong beyond run =>
    obtain ⟨digits, inside, length, decimal⟩ := run
    exact .tooLong beyond ⟨digits, inside.trans behind.isInfix, length, decimal⟩
  | tooDeep beyond => exact .tooDeep (beyond.trans_le (behind.sublist.countP_le))

theorem map (comes : Comes nesting input reading) (change : Value → Other) :
    Comes nesting input (reading.map fun read => (change read.1, read.2)) := by
  cases comes with
  | read behind => exact .read behind
  | malformed => exact .malformed
  | tooLong beyond run => exact .tooLong beyond run
  | tooDeep beyond => exact .tooDeep beyond

/-- The next part is read from what the first one leaves. -/
theorem bind (comes : Comes nesting input reading)
    {next : Value × List Char → Except Fault (Other × List Char)}
    (after : ∀ value rest, Comes nesting rest (next (value, rest))) :
    Comes nesting input (Except.bind reading next) := by
  cases comes with
  | @read value rest behind => exact (after value rest).mono behind
  | malformed => exact .malformed
  | tooLong beyond run => exact .tooLong beyond run
  | tooDeep beyond => exact .tooDeep beyond

/-- Inside a collection one level less may open. -/
theorem inside {c : Char} (opening : isOpening c = true) {next : Nat → Read Value}
    (after : ∀ inner, Comes inner rest (next inner)) :
    Comes nesting (c :: rest) (Except.bind (enter nesting) next) := by
  cases nesting with
  | zero => exact .tooDeep (by simp [openings, opening])
  | succ inner =>
    change Comes (inner + 1) (c :: rest) (next inner)
    have comes := after inner
    generalize next inner = reading at comes
    cases comes with
    | read behind => exact .read (behind.trans (List.suffix_cons c rest))
    | malformed => exact .malformed
    | tooLong beyond run => exact (Comes.tooLong beyond run).mono (List.suffix_cons c rest)
    | tooDeep beyond => exact .tooDeep (by simpa [openings, opening] using beyond)

end Comes

variable {nesting : Nat}

private theorem suffix_skipSpace (text : List Char) : skipSpace text <:+ text := List.dropWhile_suffix _

private theorem suffix_skipSpace_cons (c : Char) (text : List Char) : skipSpace text <:+ c :: text :=
  (suffix_skipSpace text).trans (List.suffix_cons c text)

/-! ### Texts -/

private theorem comes_flush {high : Option Nat} {input : List Char} {read : Read (List CodePoint)}
    (comes : Comes nesting input read) : Comes nesting input (readText.flush high read) := by
  cases high with
  | none => exact comes
  | some first => exact comes.map _

private theorem comes_readText (high : Option Nat) (input : List Char) :
    Comes nesting input (readText high input) := by
  have escape (a b c d : Char) (rest : List Char) : rest <:+ '\\' :: 'u' :: a :: b :: c :: d :: rest :=
    List.suffix_append ['\\', 'u', a, b, c, d] rest
  fun_induction readText high input with
  | case1 => exact .malformed
  | case2 a b c d rest _ _ _ _ ih => exact (ih.map _).mono (escape a b c d rest)
  | case3 a b c d rest _ _ _ _ _ ih => exact (ih.map _).mono (escape a b c d rest)
  | case4 a b c d rest _ _ _ _ _ ih => exact ((ih.map _).map _).mono (escape a b c d rest)
  | case5 a b c d rest _ _ _ ih => exact ih.mono (escape a b c d rest)
  | case6 a b c d rest _ _ _ ih => exact (ih.map _).mono (escape a b c d rest)
  | case7 => exact .malformed
  | case8 _ c rest _ _ _ ih =>
    exact comes_flush ((ih.map _).mono (List.suffix_append ['\\', c] rest))
  | case9 _ rest => exact comes_flush (.read (List.suffix_cons _ rest))
  | case10 => exact .malformed
  | case11 _ c rest _ _ _ _ ih => exact comes_flush ((ih.map _).mono (List.suffix_cons c rest))
  | case12 => exact .malformed

/-! ### Numbers -/

private theorem wholePart_split {text whole rest : List Char}
    (found : wholePart text = some (whole, rest)) :
    text = whole ++ rest ∧ ∀ c ∈ whole, isDecimalDigit c = true := by
  unfold wholePart at found
  split at found
  · obtain ⟨rfl, rfl⟩ := Prod.mk.inj (Option.some.inj found)
    exact ⟨rfl, by simp [isDecimalDigit]⟩
  · next c behind _ =>
    split at found
    · next digit =>
      obtain ⟨rfl, rfl⟩ := Prod.mk.inj (Option.some.inj found)
      refine ⟨?_, fun other member => List.mem_takeWhile_imp member⟩
      rw [List.takeWhile_cons_of_pos digit, List.cons_append, List.takeWhile_append_dropWhile]
    · cases found
  · cases found

private theorem suffix_fractionPart {text digits rest : List Char}
    (found : fractionPart text = some (digits, rest)) : rest <:+ text := by
  unfold fractionPart at found
  split at found
  · next behind =>
    dsimp only at found
    split at found
    · cases found
    · obtain ⟨_, rfl⟩ := Prod.mk.inj (Option.some.inj found)
      exact (List.dropWhile_suffix _).trans (List.suffix_cons _ behind)
  · cases found

private theorem suffix_exponentPart {text rest : List Char} {power : Int}
    (found : exponentPart text = some (power, rest)) : rest <:+ text := by
  unfold exponentPart at found
  split at found
  · cases found
  · next c behind =>
    have digits {more : List Char} {condition : Prop} [Decidable condition] {value : Int}
        (inside : more <:+ behind) (found : (if condition then
          some (value, more.dropWhile isDecimalDigit) else none) = some (power, rest)) :
        rest <:+ c :: behind := by
      obtain ⟨_, same⟩ := Option.ite_none_right_eq_some.mp found
      obtain ⟨_, rfl⟩ := Prod.mk.inj (Option.some.inj same)
      exact (List.dropWhile_suffix _).trans (inside.trans (List.suffix_cons c behind))
    dsimp only at found
    split at found
    · next more => exact digits (List.suffix_cons _ more) found
    · next more => exact digits (List.suffix_cons _ more) found
    · exact digits (List.suffix_refl _) found

private theorem comes_readNumber (negative : Bool) (text : List Char) :
    Comes nesting text (readNumber negative text) := by
  unfold readNumber
  split
  · exact .malformed
  · next whole afterWhole found =>
    obtain ⟨rfl, decimal⟩ := wholePart_split found
    have behindWhole : afterWhole <:+ whole ++ afterWhole := List.suffix_append whole afterWhole
    have real {afterFraction : List Char} (behind : afterFraction <:+ afterWhole) :
        ((exponentPart afterFraction).map Prod.snd).getD afterFraction <:+ whole ++ afterWhole := by
      refine List.IsSuffix.trans ?_ (behind.trans behindWhole)
      cases exponent : exponentPart afterFraction with
      | none => exact List.suffix_refl _
      | some part => exact suffix_exponentPart exponent
    dsimp only
    cases fraction : fractionPart afterWhole with
    | some part => exact .read (real (suffix_fractionPart fraction))
    | none =>
      have behind := real (List.suffix_refl afterWhole)
      dsimp only
      cases exponent : exponentPart afterWhole with
      | some part =>
        rw [exponent] at behind
        exact .read behind
      | none =>
        -- Only a number without fraction and exponent is limited in its digits.
        have value := natural_digits decimal
        dsimp only
        rw [digitsOf, value]
        by_cases few : whole.length ≤ digitLimit
        · rw [if_pos few]
          exact .read behindWhole
        · rw [if_neg few]
          exact .tooLong (Nat.lt_of_not_le few)
            ⟨whole, List.infix_append' [] whole afterWhole, rfl, decimal⟩

/-! ### Values -/

private theorem comes_readWord? {input : List Char} {read : Json × List Char}
    (found : readWord? input = some read) : Comes nesting input (.ok read) := by
  obtain ⟨word, _, taken⟩ := List.exists_of_findSome?_eq_some found
  obtain ⟨rest, dropped, rfl⟩ := Option.map_eq_some_iff.mp taken
  unfold dropPrefix? at dropped
  split at dropped
  · obtain rfl := Option.some.inj dropped
    exact .read (List.drop_suffix _ _)
  · cases dropped

/-- A value, the items of a list and the fields of an object, with the same steps left. -/
structure ComesAt (steps : Nat) : Prop where
  value : ∀ nesting input, Comes nesting input (readValue nesting steps input)
  items : ∀ nesting input, Comes nesting input (readItems nesting steps input)
  fields : ∀ nesting before input, Comes nesting input (readFields nesting steps before input)

namespace ComesAt
variable {steps : Nat}

private theorem readValue_succ (fewer : ComesAt steps) (nesting : Nat) (input : List Char) :
    Comes nesting input (readValue nesting (steps + 1) input) := by
  unfold readValue
  split
  · next found => exact comes_readWord? found
  · split
    · next rest _ => exact ((comes_readText none rest).map _).mono (List.suffix_cons _ rest)
    · next rest _ =>
      refine Comes.inside rfl fun inner => Comes.mono ?_ (suffix_skipSpace rest)
      split
      · next behind start => rw [start]; exact .read (List.suffix_cons _ behind)
      · exact (fewer.items inner _).map _
    · next rest _ =>
      refine Comes.inside rfl fun inner => Comes.mono ?_ (suffix_skipSpace rest)
      split
      · next behind start => rw [start]; exact .read (List.suffix_cons _ behind)
      · exact (fewer.fields inner _ _).map _
    · next rest _ => exact (comes_readNumber true rest).mono (List.suffix_cons _ rest)
    · exact comes_readNumber false input

private theorem readItems_succ (fewer : ComesAt steps) (nesting : Nat) (input : List Char) :
    Comes nesting input (readItems nesting (steps + 1) input) := by
  unfold readItems
  refine (fewer.value nesting input).bind fun item rest => Comes.mono ?_ (suffix_skipSpace rest)
  dsimp only
  split
  · next behind start => rw [start]; exact .read (List.suffix_cons _ behind)
  · next more start =>
    rw [start]
    refine Comes.mono ?_ (suffix_skipSpace_cons _ more)
    exact (fewer.items nesting _).bind fun _ _ => .read (List.suffix_refl _)
  · exact .malformed

private theorem readFields_succ (fewer : ComesAt steps) (nesting : Nat)
    (before : List (List CodePoint × Json)) (input : List Char) :
    Comes nesting input (readFields nesting (steps + 1) before input) := by
  unfold readFields
  dsimp only
  split
  · next rest =>
    refine Comes.mono ?_ (List.suffix_cons _ rest)
    refine (comes_readText none rest).bind fun name afterName =>
      Comes.mono ?_ (suffix_skipSpace afterName)
    dsimp only
    split
    · next more start =>
      rw [start]
      refine Comes.mono ?_ (suffix_skipSpace_cons _ more)
      refine (fewer.value nesting _).bind fun item afterValue =>
        Comes.mono ?_ (suffix_skipSpace afterValue)
      dsimp only
      split
      · next behind here => rw [here]; exact .read (List.suffix_cons _ behind)
      · next others here =>
        rw [here]
        exact (fewer.fields nesting _ _).mono (suffix_skipSpace_cons _ others)
      · exact .malformed
    · exact .malformed
  · exact .malformed

end ComesAt

private theorem comesAt (steps : Nat) : ComesAt steps := by
  induction steps with
  | zero =>
    refine ⟨fun nesting input => ?_, fun nesting input => ?_, fun nesting before input => ?_⟩
    · exact .malformed
    · exact .malformed
    · exact .malformed
  | succ steps fewer =>
    exact ⟨fewer.readValue_succ, fewer.readItems_succ, fewer.readFields_succ⟩

/-- A text that is not read is no JSON, or has a number whose whole part is too long, or more collections
open in it than may nest. -/
theorem read_cases (nesting : Nat) (input : List Char) :
    (∃ value, read nesting input = .ok value) ∨ read nesting input = .error .notJson ∨
    (∃ count, digitLimit < count ∧ HasDigits count input ∧
      read nesting input = .error (.numeralTooLong count)) ∨
    nesting < openings input ∧ read nesting input = .error .nestedTooDeep := by
  have comes := ((comesAt (2 * input.length + 2)).value nesting (skipSpace input)).mono
    (suffix_skipSpace input)
  unfold read
  generalize readValue nesting (2 * input.length + 2) (skipSpace input) = reading at comes
  cases comes with
  | @read value rest behind =>
    change (∃ other, (if (skipSpace rest).isEmpty then _ else _) = _) ∨ _
    by_cases whole : (skipSpace rest).isEmpty = true
    · exact Or.inl ⟨value, if_pos whole⟩
    · exact Or.inr (Or.inl (if_neg whole))
  | malformed => exact Or.inr (Or.inl rfl)
  | tooLong beyond run => exact Or.inr (Or.inr (Or.inl ⟨_, beyond, run, rfl⟩))
  | tooDeep beyond => exact Or.inr (Or.inr (Or.inr ⟨beyond, rfl⟩))

end AttributeGrammar.Json
