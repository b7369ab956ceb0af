import AttributeGrammar.Text.Basic

/-! A text cut into rows, words and the parts of a row.
Cutting at a separator gives one piece more than there are separators, so an empty text is one
empty piece and nothing but the separators is lost.
-/
namespace AttributeGrammar.Text

def pieces (separator : Char) : List Char → List (List Char)
  | [] => [[]]
  | c :: rest =>
    if c = separator then [] :: pieces separator rest
    else match pieces separator rest with
      | [] => [[c]]
      | piece :: others => (c :: piece) :: others

/-- The pieces between the arrows `->`, which are found from left to right. -/
def arrowPieces : List Char → List (List Char)
  | [] => [[]]
  | '-' :: '>' :: rest => [] :: arrowPieces rest
  | c :: rest => match arrowPieces rest with
    | [] => [[c]]
    | piece :: others => (c :: piece) :: others

def isGap (c : Char) : Bool := c == ' ' || c == '\t'

/-- Every run of spaces and tabs becomes one space; `inGap` says that a run has begun. -/
def collapseFrom (inGap : Bool) : List Char → List Char
  | [] => []
  | c :: rest =>
    if isGap c then
      if inGap then collapseFrom true rest else ' ' :: collapseFrom true rest
    else c :: collapseFrom false rest

def collapse (text : List Char) : List Char := collapseFrom false text

/-- Blank rows stay, so that a row's place is its line number less one. -/
def rows (text : List Char) : List (List Char) :=
  (pieces '\n' (collapse text)).map (dropEnd (· == '\r'))

def words (text : List Char) : List (List Char) := pieces ' ' (strip text)

def occurs (part : List Char) : List Char → Bool
  | [] => part.isEmpty
  | c :: rest => part.isPrefixOf (c :: rest) || occurs part rest

def containsAny (parts : List (List Char)) (text : List Char) : Bool := parts.any (occurs · text)

/-- A row's rule, and its equations when exactly one colon announces them. -/
structure RowParts where
  rule : List Char
  equations : Option (List Char)
  severalSeparators : Bool
deriving DecidableEq, Repr

def rowParts (row : List Char) : RowParts :=
  match pieces ':' row with
  | [] => ⟨[], none, false⟩
  | [rule] => ⟨rule, none, false⟩
  | [rule, equations] => ⟨rule, some equations, false⟩
  | rule :: _ => ⟨rule, none, true⟩

end AttributeGrammar.Text
