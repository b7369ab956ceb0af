/-! Texts: their order, white space in them, decimal digits, and code points.
A text is a list of characters where it is taken apart and a string where it is a name. One that can hold
half a pair of 16-bit units, which stands alone only where an escape names it, is a list of code points.
-/
namespace AttributeGrammar.Text

/-- The ascending order of code points. -/
def inOrder (left right : String) : Bool := decide (left ≤ right)

def sorted (texts : List String) : List String := texts.mergeSort inOrder

/-! ### White space -/

/-- White space as text treats it: the controls that separate, the spaces of every width and
the line and paragraph separators. -/
def isBlank (c : Char) : Bool :=
  let code := c.toNat
  (0x09 ≤ code && code ≤ 0x0D) || (0x1C ≤ code && code ≤ 0x20) || code == 0x85 || code == 0xA0 ||
    code == 0x1680 || (0x2000 ≤ code && code ≤ 0x200A) || code == 0x2028 || code == 0x2029 ||
    code == 0x202F || code == 0x205F || code == 0x3000

def dropEnd (drop : Char → Bool) (text : List Char) : List Char :=
  (text.reverse.dropWhile drop).reverse

def strip (text : List Char) : List Char := dropEnd isBlank (text.dropWhile isBlank)

def isEmpty (text : List Char) : Bool := text.all isBlank

def stripped (text : List Char) : String := String.ofList (strip text)

/-! ### Decimal digits -/

/-- The zeros of every script; the digits come in runs of ten, zero first. -/
def digitZeros : List Nat := [
  0x30, 0x660, 0x6F0, 0x7C0, 0x966, 0x9E6, 0xA66, 0xAE6, 0xB66, 0xBE6, 0xC66, 0xCE6, 0xD66,
  0xDE6, 0xE50, 0xED0, 0xF20, 0x1040, 0x1090, 0x17E0, 0x1810, 0x1946, 0x19D0, 0x1A80, 0x1A90,
  0x1B50, 0x1BB0, 0x1C40, 0x1C50, 0xA620, 0xA8D0, 0xA900, 0xA9D0, 0xA9F0, 0xAA50, 0xABF0, 0xFF10,
  0x104A0, 0x10D30, 0x11066, 0x110F0, 0x11136, 0x111D0, 0x112F0, 0x11450, 0x114D0, 0x11650,
  0x116C0, 0x11730, 0x118E0, 0x11950, 0x11C50, 0x11D50, 0x11DA0, 0x16A60, 0x16AC0, 0x16B50,
  0x1D7CE, 0x1D7D8, 0x1D7E2, 0x1D7EC, 0x1D7F6, 0x1E140, 0x1E2F0, 0x1E950, 0x1FBF0]

def digitValue? (c : Char) : Option Nat :=
  if c.toNat < 0x80 then
    if '0' ≤ c && c ≤ '9' then some (c.toNat - 0x30) else none
  else
    (digitZeros.find? fun first => first ≤ c.toNat && c.toNat < first + 10).map (c.toNat - ·)

/-! ### Code points -/

inductive CodePoint where
  | character (c : Char)
  | half (place : Fin 0x800)
deriving DecidableEq, Repr

namespace CodePoint

def number : CodePoint → Nat
  | character c => c.toNat
  | half place => 0xD800 + place.val

/-- What is shown for a code point: half a pair has no character and is replaced. -/
def shown : CodePoint → Char
  | character c => c
  | half _ => '\ufffd'

end CodePoint

def points (text : String) : List CodePoint := text.toList.map .character

/-- The characters of a text, if it holds no half of a pair. -/
def characters? : List CodePoint → Option (List Char)
  | [] => some []
  | .character c :: rest => (characters? rest).map (c :: ·)
  | .half _ :: _ => none

theorem characters?_eq_some_iff {points : List CodePoint} {text : List Char} :
    characters? points = some text ↔ points = text.map .character := by
  induction points generalizing text with
  | nil => cases text <;> simp [characters?]
  | cons point rest ih =>
    cases point with
    | half => cases text <;> simp [characters?]
    | character c =>
      simp only [characters?, Option.map_eq_some_iff, ih]
      constructor
      · rintro ⟨others, rfl, rfl⟩
        rfl
      · intro same
        cases text with
        | nil => cases same
        | cons d others =>
          obtain ⟨first, behind⟩ := List.cons.inj same
          exact ⟨others, behind, by rw [CodePoint.character.inj first]⟩

def shownText (points : List CodePoint) : String := String.ofList (points.map CodePoint.shown)

@[simp] theorem shownText_points (text : String) : shownText (points text) = text := by
  have same : CodePoint.shown ∘ CodePoint.character = id := rfl
  simp [shownText, points, same]

end AttributeGrammar.Text
