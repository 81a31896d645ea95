import TapeTree.Optimize

/-! Normal forms: trees in which the optimizer finds nothing to do, said without the optimizer. -/

namespace TapeTree.Node

variable {Hole : Type}

def Mergeable : Node Hole → Node Hole → Prop
  | .add _, .add _ | .move _, .move _ | .set _, .add _ | .set _, .set _ => True
  | _, _ => False

def IsBlock : Node Hole → Prop
  | .block _ => True
  | _ => False

def NoneMerge : List (Node Hole) → Prop
  | first :: second :: rest => ¬ Mergeable first second ∧ NoneMerge (second :: rest)
  | _ => True

def Settled (children : List (Node Hole)) : Prop :=
  2 ≤ children.length ∧ (∀ child ∈ children, ¬ IsBlock child) ∧ NoneMerge children

def Irreplaceable : Node Hole → Prop
  | .add amount => amount ≠ 1 ∧ amount ≠ cellSize - 1
  | .block children => transfer? children = none
  | _ => True

mutual

def IsNormal : Node Hole → Prop
  | .move distance => distance ≠ 0
  | .add amount => amount ≠ 0
  | .block children => Settled children ∧ AllNormal children
  | .loop body => Irreplaceable body ∧ IsNormal body
  | .set _ | .print | .read | .addTo _ => True
  | .hole _ => False

def AllNormal : List (Node Hole) → Prop
  | [] => True
  | node :: rest => IsNormal node ∧ AllNormal rest

end

end TapeTree.Node
