import AttributeGrammar.Sequence

/-! A map that keeps its keys in the order they arrived, or sorted on request.
A key that is written again keeps its place and takes the new value.
-/
namespace AttributeGrammar

structure OrderedMap (K V : Type) where
  entries : List (K × V) := []
deriving DecidableEq, Repr

namespace OrderedMap
variable {K V : Type}

instance : EmptyCollection (OrderedMap K V) := ⟨⟨[]⟩⟩
instance : Inhabited (OrderedMap K V) := ⟨∅⟩

def keys (map : OrderedMap K V) : List K := map.entries.map Prod.fst

def values (map : OrderedMap K V) : List V := map.entries.map Prod.snd

def size (map : OrderedMap K V) : Nat := map.entries.length

def isEmpty (map : OrderedMap K V) : Bool := map.entries.isEmpty

variable [DecidableEq K]

def write (key : K) (value : V) : List (K × V) → List (K × V)
  | [] => [(key, value)]
  | (present, old) :: rest =>
    if present = key then (key, value) :: rest else (present, old) :: write key value rest

def insert (map : OrderedMap K V) (key : K) (value : V) : OrderedMap K V :=
  ⟨write key value map.entries⟩

def insertAll (map : OrderedMap K V) (entries : List (K × V)) : OrderedMap K V :=
  entries.foldl (fun built entry => built.insert entry.1 entry.2) map

def get? (map : OrderedMap K V) (key : K) : Option V :=
  (map.entries.find? fun entry => entry.1 = key).map Prod.snd

def contains (map : OrderedMap K V) (key : K) : Bool := map.entries.any fun entry => entry.1 = key

def indexOf? (map : OrderedMap K V) (key : K) : Option Nat := map.keys.findIdx? (· = key)

def entryAt? (map : OrderedMap K V) (index : Int) : Option (K × V) :=
  Sequence.item? map.entries index

def sort (inOrder : K → K → Bool) (map : OrderedMap K V) : OrderedMap K V :=
  ⟨map.entries.mergeSort fun left right => inOrder left.1 right.1⟩

def sameKeys (left right : OrderedMap K V) : Bool :=
  left.keys.all right.contains && right.keys.all left.contains

end OrderedMap
end AttributeGrammar
