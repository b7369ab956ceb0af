import AttributeGrammar.Text.Numeral

/-! Attribute references `name[index]` in a text.
The scanner stops at each opening bracket. The name is the longest run of word characters before it
that begins no earlier than the end of the last reference; the index is a run of digits up to the
closing bracket. What fails to be a reference is passed over.
-/
namespace AttributeGrammar

structure Reference where
  name : String
  symbolIndex : Nat
  first : Nat
  beyond : Nat
deriving DecidableEq, Repr

namespace Reference

def text (reference : Reference) : String :=
  reference.name ++ "[" ++ toString reference.symbolIndex ++ "]"

/-- Two references mean the same attribute wherever they stand. -/
def sameAttribute (left right : Reference) : Bool :=
  left.name == right.name && left.symbolIndex == right.symbolIndex

end Reference

def isWord (c : Char) : Bool :=
  ('a' ≤ c && c ≤ 'z') || ('A' ≤ c && c ≤ 'Z') || ('0' ≤ c && c ≤ '9') || c == '_'

def isDigit (c : Char) : Bool := '0' ≤ c && c ≤ '9'

/-- `passed` are the characters since the last reference, the latest first. -/
structure Scanner where
  lastEnd : Nat
  passed : List Char
  rest : List Char
deriving DecidableEq, Repr

namespace Scanner

def start (text : List Char) : Scanner := ⟨0, [], text⟩

def position (scanner : Scanner) : Nat := scanner.lastEnd + scanner.passed.length

/-- The name, the digits and what follows the closing bracket, for an opening bracket that has
`passed` before it and `rest` after it. -/
def atBracket? (passed rest : List Char) : Option (List Char × List Char × List Char) :=
  let name := (passed.takeWhile isWord).reverse
  let digits := rest.takeWhile isDigit
  match rest.dropWhile isDigit with
  | ']' :: after => if name.isEmpty || digits.isEmpty then none else some (name, digits, after)
  | _ => none

/-- The next reference and the scanner behind it, or none and the scanner at the end. -/
def nextFrom (lastEnd : Nat) : (passed rest : List Char) → Except Fault (Option Reference × Scanner)
  | passed, [] => .ok (none, ⟨lastEnd, passed, []⟩)
  | passed, c :: rest =>
    match if c = '[' then atBracket? passed rest else none with
    | none => nextFrom lastEnd (c :: passed) rest
    | some (name, digits, after) => do
      let symbolIndex ← Text.natural (digits.filterMap Text.digitValue?)
      let bracket := lastEnd + passed.length
      let beyond := bracket + digits.length + 2
      pure (some ⟨String.ofList name, symbolIndex, bracket - name.length, beyond⟩,
        ⟨beyond, [], after⟩)

def next (scanner : Scanner) : Except Fault (Option Reference × Scanner) :=
  nextFrom scanner.lastEnd scanner.passed scanner.rest

theorem length_after_atBracket? {passed rest name digits after : List Char}
    (found : atBracket? passed rest = some (name, digits, after)) : after.length < rest.length := by
  unfold atBracket? at found
  split at found
  · next behind closing =>
    simp only at found
    split at found
    · cases found
    · cases found
      have shorter := List.IsSuffix.length_le (List.dropWhile_suffix isDigit (l := rest))
      rw [closing] at shorter
      exact Nat.lt_of_succ_le shorter
  · cases found

theorem length_rest_nextFrom {lastEnd : Nat} {passed rest : List Char} {reference : Reference}
    {scanner : Scanner} (found : nextFrom lastEnd passed rest = .ok (some reference, scanner)) :
    scanner.rest.length < rest.length := by
  induction rest generalizing passed with
  | nil => simp [nextFrom] at found
  | cons c rest ih =>
    unfold nextFrom at found
    split at found
    · exact Nat.lt_succ_of_lt (ih found)
    · next name digits after bracketed =>
      split at bracketed
      · cases index : Text.natural (digits.filterMap Text.digitValue?) with
        | error fault => simp [index, bind, Except.bind] at found
        | ok symbolIndex =>
          simp only [index, bind, Except.bind, pure, Except.pure, Except.ok.injEq,
            Prod.mk.injEq] at found
          rw [← found.2]
          exact Nat.lt_succ_of_lt (length_after_atBracket? bracketed)
      · cases bracketed

/-- All references from here to the end. -/
def all (scanner : Scanner) : Except Fault (List Reference) :=
  match _found : scanner.next with
  | .error fault => .error fault
  | .ok (none, _) => .ok []
  | .ok (some reference, behind) => (all behind).map (reference :: ·)
termination_by scanner.rest.length
decreasing_by exact length_rest_nextFrom _found

end Scanner

def Reference.scan (text : List Char) : Except Fault (List Reference) := (Scanner.start text).all

end AttributeGrammar
