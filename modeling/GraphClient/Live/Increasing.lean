/-! A longest strictly increasing part of a list of numbers. The numbers are taken one by one; for every
length there is at most one run of that length at hand, the one that ends lowest, and a number goes on
the longest run that ends below it. -/

namespace GraphClient.Live

/-- A strictly increasing part of a list. -/
structure Run where
  /-- The last number. -/
  last : Nat
  /-- Where the numbers stand in the list, the last one first. -/
  positions : List Nat
  deriving DecidableEq, Repr

namespace Run

/-- The runs, of lengths one, two and so on, after one more number; `shorter` are the positions of the
run before the first of them. -/
def place (position value : Nat) (shorter : List Nat) : List Run → List Run
  | [] => [⟨value, position :: shorter⟩]
  | run :: longer =>
      if run.last < value then run :: place position value run.positions longer
      else ⟨value, position :: shorter⟩ :: longer

/-- The runs after the numbers from a position on. -/
def placeAll (runs : List Run) (position : Nat) : List Nat → List Run
  | [] => runs
  | value :: rest => placeAll (place position value [] runs) (position + 1) rest

end Run

/-- Where the numbers of a longest strictly increasing part stand, in order. -/
def longestIncreasing (numbers : List Nat) : List Nat :=
  match (Run.placeAll [] 0 numbers).getLast? with
  | some run => run.positions.reverse
  | none => []

end GraphClient.Live
