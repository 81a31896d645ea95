import TapeTree.Tree

/-! One pass of the optimizer. It works bottom up: nodes without effect are erased, neighbours
that merge are folded, blocks are flattened, and loops that clear or transfer a cell are replaced
by nodes that do so at once. -/

namespace TapeTree

namespace Node

variable {Hole : Type}

def isIdle : Node Hole → Bool
  | .move distance => distance = 0
  | .add amount => amount = 0
  | _ => false

def merge? : Node Hole → Node Hole → Option (Node Hole)
  | .add first, .add second => some (.add ((first + second) % cellSize))
  | .move first, .move second => some (.move (first + second))
  | .set first, .add second => some (.set ((first + second) % cellSize))
  | .set _, .set second => some (.set second)
  | _, _ => none

/-- A node in a sequence beside its optimized form, which is `none` if it is erased. -/
structure Candidate (Hole : Type) where
  node : Node Hole
  form : Option (Node Hole)

def Candidate.hold (next : Candidate Hole) : Option (Candidate Hole) :=
  match next.node with
  | .hole _ => none
  | _ => some next

def holdMerged (merged : Node Hole) : Option (Candidate Hole) :=
  if merged.isIdle then none else some ⟨merged, some merged⟩

/-- Goes through a sequence with one node held back, merging the next one into it as long as
that works, and emits the optimized forms of the nodes that stay. -/
def foldHeld : Option (Candidate Hole) → List (Candidate Hole) → List (Node Hole)
  | none, [] => []
  | some held, [] => held.form.toList
  | none, next :: rest => foldHeld next.hold rest
  | some held, next :: rest =>
      if next.node.isIdle then foldHeld (some held) rest
      else
        match merge? held.node next.node with
        | some merged => foldHeld (holdMerged merged) rest
        | none => held.form.toList ++ foldHeld next.hold rest

def spliced : Node Hole → List (Node Hole)
  | .block children => children
  | node => [node]

def combine (candidates : List (Candidate Hole)) : List (Node Hole) :=
  (foldHeld none candidates).flatMap spliced

def ofSequence? : List (Node Hole) → Option (Node Hole)
  | [] => none
  | [node] => some node
  | nodes => some (.block nodes)

/-- What a loop over these nodes comes to if it moves the current cell into one or two others:
it takes one from the cell, adds one at each target, and comes back. -/
def transfer? : List (Node Hole) → Option (Node Hole)
  | [.add down, .move out, .add up, .move back] =>
      if down = cellSize - 1 ∧ up = 1 ∧ out = -back then
        some (.block [.addTo out, .set 0])
      else none
  | [.add down, .move out, .add up, .move further, .add again, .move back] =>
      if down = cellSize - 1 ∧ up = 1 ∧ again = 1 ∧ out + further = -back then
        some (.block [.addTo out, .addTo (out + further), .set 0])
      else none
  | _ => none

def clears : Node Hole → Bool
  | .add amount => amount = 1 || amount = cellSize - 1
  | _ => false

/-- A loop over an optimized body. A loop whose body does nothing is erased: it is either not
entered or never left. -/
def ofBody? : Option (Node Hole) → Option (Node Hole)
  | none => none
  | some body =>
      if body.clears then some (.set 0)
      else
        match body with
        | .block children => some ((transfer? children).getD (.loop body))
        | _ => some (.loop body)

mutual

/-- One pass over a node. The result is `none` if the node can be erased. -/
def optimize : Node Hole → Option (Node Hole)
  | .move distance => if distance = 0 then none else some (.move distance)
  | .add amount => if amount = 0 then none else some (.add amount)
  | .set value => some (.set value)
  | .print => some .print
  | .read => some .read
  | .block children => ofSequence? (combine (candidates children))
  | .loop body => ofBody? (optimize body)
  | .addTo offset => some (.addTo offset)
  | .hole _ => none

def candidates : List (Node Hole) → List (Candidate Hole)
  | [] => []
  | node :: rest => ⟨node, optimize node⟩ :: candidates rest

end

def optimizeSequence (nodes : List (Node Hole)) : List (Node Hole) :=
  combine (candidates nodes)

def optimizeLoop (body : Node Hole) : Option (Node Hole) :=
  ofBody? (optimize body)

theorem candidates_eq_map (nodes : List (Node Hole)) :
    candidates nodes = nodes.map fun node => ⟨node, optimize node⟩ := by
  induction nodes with
  | nil => rfl
  | cons node rest ih => simp only [candidates, List.map_cons, ih]

end Node

end TapeTree
