import TapeTree.Tree

/-! The skeleton of a tree: its input and output instructions in order, inside the loops around
them. A loop without any of them leaves no trace. -/

namespace TapeTree

inductive Skeleton where
  | print
  | read
  | loop (body : List Skeleton)

def Skeleton.around : List Skeleton → List Skeleton
  | [] => []
  | body => [.loop body]

namespace Node

variable {Hole : Type}

mutual

def skeleton : Node Hole → List Skeleton
  | .print => [.print]
  | .read => [.read]
  | .block children => skeletonAll children
  | .loop body => Skeleton.around (skeleton body)
  | _ => []

def skeletonAll : List (Node Hole) → List Skeleton
  | [] => []
  | node :: rest => skeleton node ++ skeletonAll rest

end

end Node

end TapeTree
