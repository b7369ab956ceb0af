import AttributeGrammar.Fault

/-! Lists read and written at an index that may count from the end.
Index -1 is the last item and minus the length the first; beyond either end there is none, and to ask
for it is a fault.
-/
namespace AttributeGrammar

def isIndexWide (index : Int) : Bool := index < -Int.pow 2 63 || Int.pow 2 63 ≤ index

/-- Why there is no item at `index`; an index of more than 64 bits is not even looked for. -/
def Fault.noItemAt (index : Int) : Fault := if isIndexWide index then .indexTooWide else .itemAbsent

/-- Why nothing can be written at `index`. -/
def Fault.noPlaceAt (index : Int) : Fault :=
  if isIndexWide index then .indexTooWide else .placeAbsent

namespace Sequence

/-- The place that an index names among `length` items. -/
def place? (length : Nat) (index : Int) : Option Nat :=
  let counted := if index < 0 then index + length else index
  if 0 ≤ counted ∧ counted < length then some counted.toNat else none

def item? {α : Type} (items : List α) (index : Int) : Option α :=
  (place? items.length index).bind fun place => items[place]?

def item {Item : Type} (items : List Item) (index : Int) : Except Fault Item :=
  match item? items index with
  | some item => .ok item
  | none => .error (.noItemAt index)

def replace? {α : Type} (items : List α) (index : Int) (item : α) : Option (List α) :=
  (place? items.length index).map fun place => items.set place item

theorem place?_ofNat (length place : Nat) :
    place? length (place : Int) = if place < length then some place else none := by
  have counted : ¬ (place : Int) < 0 := by omega
  simp [place?, counted]

theorem item?_ofNat {α : Type} (items : List α) (place : Nat) :
    item? items (place : Int) = items[place]? := by
  rw [item?, place?_ofNat]
  split
  · simp
  · next beyond => simp [List.getElem?_eq_none (Nat.le_of_not_lt beyond)]

end Sequence
end AttributeGrammar
