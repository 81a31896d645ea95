/-! Instruction trees. A node may be a hole: a place where no instruction stands. Trees read
from programs have none, which `Tree` says by leaving no value for a hole to carry. -/

namespace TapeTree

/-- Cells hold bytes: arithmetic on them is modulo this size. -/
def cellSize : Int := 256

inductive Node (Hole : Type) where
  | move (distance : Int)
  | add (amount : Int)
  | set (value : Int)
  | print
  | read
  | block (children : List (Node Hole))
  | loop (body : Node Hole)
  /-- Adds the current cell to the cell at an offset from it. -/
  | addTo (offset : Int)
  | hole (mark : Hole)

abbrev Tree := Node Empty

namespace Node

variable {Hole : Type}

mutual

def size : Node Hole → Nat
  | .block children => 1 + sizeAll children
  | .loop body => 1 + size body
  | _ => 1

def sizeAll : List (Node Hole) → Nat
  | [] => 0
  | node :: rest => size node + sizeAll rest

end

mutual

def whole? : Node Hole → Option Tree
  | .move distance => some (.move distance)
  | .add amount => some (.add amount)
  | .set value => some (.set value)
  | .print => some .print
  | .read => some .read
  | .block children => (wholeAll? children).map .block
  | .loop body => (whole? body).map .loop
  | .addTo offset => some (.addTo offset)
  | .hole _ => none

def wholeAll? : List (Node Hole) → Option (List Tree)
  | [] => some []
  | node :: rest =>
      match whole? node, wholeAll? rest with
      | some first, some others => some (first :: others)
      | _, _ => none

end

mutual

def same [DecidableEq Hole] : Node Hole → Node Hole → Bool
  | .move a, .move b => a = b
  | .add a, .add b => a = b
  | .set a, .set b => a = b
  | .print, .print => true
  | .read, .read => true
  | .block a, .block b => sameAll a b
  | .loop a, .loop b => same a b
  | .addTo a, .addTo b => a = b
  | .hole a, .hole b => a = b
  | _, _ => false

def sameAll [DecidableEq Hole] : List (Node Hole) → List (Node Hole) → Bool
  | [], [] => true
  | a :: as, b :: bs => same a b && sameAll as bs
  | _, _ => false

end

mutual

theorem same_iff [DecidableEq Hole] (first second : Node Hole) :
    same first second = true ↔ first = second := by
  match first with
  | .block children =>
      cases second <;> simp [same]
      exact sameAll_iff children _
  | .loop body =>
      cases second <;> simp [same]
      exact same_iff body _
  | .move _ | .add _ | .set _ | .print | .read | .addTo _ | .hole _ =>
      cases second <;> simp [same]

theorem sameAll_iff [DecidableEq Hole] (first second : List (Node Hole)) :
    sameAll first second = true ↔ first = second := by
  match first with
  | [] => cases second <;> simp [sameAll]
  | node :: rest =>
      cases second with
      | nil => simp [sameAll]
      | cons other others =>
          simp only [sameAll, Bool.and_eq_true, List.cons.injEq]
          rw [same_iff node other, sameAll_iff rest others]

end

instance [DecidableEq Hole] : DecidableEq (Node Hole) := fun first second =>
  decidable_of_iff _ (same_iff first second)

end Node

end TapeTree
