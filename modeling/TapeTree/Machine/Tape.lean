import Std.Data.ExtTreeMap
import TapeTree.Size

/-! The tape: a cell at every integer address, all but finitely many of them never written. -/

namespace TapeTree

/-- A cell without an entry holds zero. An entry may hold zero too. -/
structure Tape where
  cells : Std.ExtTreeMap Int Int := ∅
  pointer : Int := 0

namespace Tape

def cellAt (tape : Tape) (address : Int) : Int :=
  tape.cells.getD address 0

def get (tape : Tape) (offset : Int) : Int :=
  tape.cellAt (tape.pointer + offset)

def current (tape : Tape) : Int :=
  tape.cellAt tape.pointer

def move (tape : Tape) (distance : Int) : Tape :=
  { tape with pointer := tape.pointer + distance }

def set (tape : Tape) (offset value : Int) : Tape :=
  { tape with cells := tape.cells.insert (tape.pointer + offset) value }

def setCurrent (tape : Tape) (value : Int) : Tape :=
  { tape with cells := tape.cells.insert tape.pointer value }

end Tape

def byte? (value : Int) : Option UInt8 :=
  if 0 ≤ value ∧ value < 256 then some (UInt8.ofNat value.toNat) else none

/-- Writes the entries from `start` up to but without `stop` into a window that begins at `start`.
The others are passed over, and one in the window that is no byte is refused. -/
def scatter (start stop : Int) (window : Array UInt8) : List (Int × Int) → Option (Array UInt8)
  | [] => some window
  | (address, value) :: rest =>
      if start ≤ address ∧ address < stop then
        match byte? value with
        | some byte => scatter start stop (window.setIfInBounds (address - start).toNat byte) rest
        | none => none
      else scatter start stop window rest

inductive WindowFault where
  | noArray (why : SizeFault)
  | notByte
deriving DecidableEq

def Tape.snapshot (zeros : ArrayMaker) (tape : Tape) (start stop : Int) :
    Except WindowFault (Array UInt8) :=
  match zeros (stop - start).toNat with
  | .error why => .error (.noArray why)
  | .ok window =>
      match scatter start stop window tape.cells.toList with
      | some cells => .ok cells
      | none => .error .notByte

theorem Tape.get_zero (tape : Tape) : tape.get 0 = tape.current := by
  simp [get, current]

theorem Tape.set_zero (tape : Tape) (value : Int) : tape.set 0 value = tape.setCurrent value := by
  simp [set, setCurrent]

end TapeTree
