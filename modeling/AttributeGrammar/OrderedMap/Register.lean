import AttributeGrammar.OrderedMap.Label

/-! Registers: keys listed in order, and a table of their values beside the list.
A look-up by key goes to the table, one by place goes to the list first. The two are written one after
the other, and only the list is sorted.
-/
namespace AttributeGrammar

structure Register (K V : Type) where
  keys : List K := []
  table : OrderedMap K V := ∅
deriving DecidableEq, Repr

namespace Register
variable {K V : Type}

/-- Why a look-up fails: no key stands at the index, or a key has no value in the table. -/
inductive Gap (K : Type) where
  | noKey (index : Int)
  | noValue (key : K)
deriving DecidableEq, Repr

instance : EmptyCollection (Register K V) := ⟨{}⟩
instance : Inhabited (Register K V) := ⟨∅⟩

def size (register : Register K V) : Nat := register.keys.length

def fold {Result : Type} (visit : Result → K → Result) (start : Result) (register : Register K V) :
    Result :=
  register.keys.foldl visit start

def sort (inOrder : K → K → Bool) (register : Register K V) : Register K V :=
  { register with keys := register.keys.mergeSort inOrder }

variable [DecidableEq K]

def contains (register : Register K V) (key : K) : Bool := register.table.contains key

def insert (register : Register K V) (key : K) (value : V) : Register K V where
  keys := if register.contains key then register.keys else register.keys ++ [key]
  table := register.table.insert key value

def get? (register : Register K V) (key : K) : Option V := register.table.get? key

def indexOf? (register : Register K V) (key : K) : Option Nat :=
  register.keys.findIdx? (· = key)

def value (register : Register K V) (key : K) : Except (Gap K) V :=
  match register.table.get? key with
  | some value => .ok value
  | none => .error (.noValue key)

def valueAt (register : Register K V) (index : Int) : Except (Gap K) V :=
  match Sequence.item? register.keys index with
  | some key => register.value key
  | none => .error (.noKey index)

def values (register : Register K V) : Except (Gap K) (List V) := register.keys.mapM register.value

def entries (register : Register K V) : Except (Gap K) (List (K × V)) :=
  register.keys.mapM fun key => (register.value key).map fun value => (key, value)

/-- Keys of different kinds have no order, so they stay as they are listed. -/
def sortLabels (register : Register Label V) : Except Fault (Register Label V) :=
  if Label.ofOneKind register.keys then .ok (register.sort Label.inOrder) else .error .notComparable

end Register
end AttributeGrammar
