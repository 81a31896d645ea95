/-! How many elements a text or an array may have. -/

namespace TapeTree

inductive SizeFault where
  | beyondIndex
  | beyondMemory
deriving DecidableEq

def indexLimit : Nat := 0x8000000000000000

/-- Why so many elements cannot be held, if they cannot. What the memory holds is left open. -/
def sizeFault? (memory : Nat → Bool) (count : Nat) : Option SizeFault :=
  if indexLimit ≤ count then some .beyondIndex
  else if memory count then none
  else some .beyondMemory

theorem sizeFault?_eq_none_iff {memory : Nat → Bool} {count : Nat} :
    sizeFault? memory count = none ↔ count < indexLimit ∧ memory count := by
  rw [sizeFault?]
  split
  · simp
    omega
  · split <;> simp_all

abbrev ArrayMaker := Nat → Except SizeFault (Array UInt8)

/-- What is relied on of a maker: an array that it gives has just the zeros that were asked for.
Which sizes it refuses is left open. -/
def MakesZeros (zeros : ArrayMaker) : Prop :=
  ∀ size window, zeros size = .ok window → window = Array.replicate size 0

def zerosWithin (memory : Nat → Bool) : ArrayMaker := fun size =>
  match sizeFault? memory size with
  | some why => .error why
  | none => .ok (Array.replicate size 0)

theorem makesZeros_zerosWithin (memory : Nat → Bool) : MakesZeros (zerosWithin memory) := by
  intro size window made
  rw [zerosWithin] at made
  split at made
  · cases made
  · cases made
    rfl

end TapeTree
