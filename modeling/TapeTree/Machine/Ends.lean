import TapeTree.Machine

/-! Runs without a bound on the fuel, and what two tapes have in common. -/

namespace TapeTree

/-- The run of a tree ends with this outcome. Running out of fuel is not an end. -/
def Node.Ends {Hole : Type} (setup : Setup) (tree : Node Hole) (machine : Machine)
    (outcome : Outcome) : Prop :=
  outcome.halt? ≠ some .outOfFuel ∧ ∃ fuel, tree.execute setup fuel machine = outcome

namespace Tape

/-- Tapes that cannot be told apart by moving and looking: entries of zero do not show. -/
def Alike (first second : Tape) : Prop :=
  first.pointer = second.pointer ∧ ∀ address, first.cellAt address = second.cellAt address

def HoldsBytes (tape : Tape) : Prop :=
  ∀ address value : Int, tape.cells[address]? = some value → 0 ≤ value ∧ value < cellSize

end Tape

end TapeTree
