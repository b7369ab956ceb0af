import AttributeGrammar.Fault
import AttributeGrammar.OrderedMap
import AttributeGrammar.Text.Basic

/-! Maps whose keys are numbers or texts.
Numbers and texts have no common order, so a map with keys of both kinds cannot be sorted.
-/
namespace AttributeGrammar

inductive Label where
  | number (value : Int)
  | text (value : String)
deriving DecidableEq, Repr

namespace Label

def isNumber : Label → Bool
  | number _ => true
  | text _ => false

def inOrder : Label → Label → Bool
  | number left, number right => left ≤ right
  | text left, text right => Text.inOrder left right
  | number _, text _ => true
  | text _, number _ => false

def ofOneKind (keys : List Label) : Bool := keys.all isNumber || keys.all fun key => !key.isNumber

end Label

def OrderedMap.sortLabels {V : Type} (map : OrderedMap Label V) :
    Except Fault (OrderedMap Label V) :=
  if Label.ofOneKind map.keys then .ok (map.sort Label.inOrder) else .error .notComparable

end AttributeGrammar
