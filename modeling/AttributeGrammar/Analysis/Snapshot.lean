import AttributeGrammar.Dependency
import AttributeGrammar.Fault

/-! What each round of the analysis leaves behind for every rule and every nonterminal.
The histories only grow at the end, so the snapshot of a round stays at the place of the round.
-/
namespace AttributeGrammar

/-- `cycleStarts` are the attributes that were found on a cycle, in the order of the search. -/
structure RuleRound where
  cycleStarts : List Coordinate := []
  projections : Relations := ∅
  redecorated : Relations := ∅
deriving DecidableEq, Repr

def RuleRound.cycleFound (snapshot : RuleRound) : Bool := !snapshot.cycleStarts.isEmpty

structure NonterminalRound where
  stable : Bool := false
  relations : Relations := ∅
deriving DecidableEq, Repr

/-- Where the snapshot before `round` stands among `snapshots`, whether or not the one of `round`
was opened already; before round 0 there is none. -/
def previousPlace (nonterminal : String) (snapshots : Nat) (round : Int) :
    Except Fault (Option Nat) :=
  if round < 0 then .error (.roundNegative round)
  else if round = 0 then .ok none
  else if snapshots = round ∨ snapshots = round + 1 then .ok (some (round - 1).toNat)
  else .error (.previousUnclear nonterminal snapshots round)

def previousRound (nonterminal : String) (history : List NonterminalRound) (round : Int) :
    Except Fault NonterminalRound := do
  match ← previousPlace nonterminal history.length round with
  | none => pure {}
  | some place =>
    match history[place]? with
    | some snapshot => pure snapshot
    | none => .error .itemAbsent

/-- One mark for each round: whether every nonterminal was stable in it. -/
structure Stability where
  marks : List Bool := []
deriving DecidableEq, Repr

namespace Stability

def addRound (stability : Stability) : Stability := ⟨stability.marks ++ [true]⟩

def markUnstable (round : Int) (stability : Stability) : Except Fault Stability :=
  match Sequence.replace? stability.marks round false with
  | some marks => .ok ⟨marks⟩
  | none => .error (.noPlaceAt round)

def isUnstable (stability : Stability) (round : Int) : Except Fault Bool :=
  (Sequence.item stability.marks round).map (!·)

def roundCount (stability : Stability) : Nat := stability.marks.length

def finalRound? (stability : Stability) : Option Nat :=
  if stability.marks.isEmpty then none else some (stability.marks.length - 1)

end Stability
end AttributeGrammar
