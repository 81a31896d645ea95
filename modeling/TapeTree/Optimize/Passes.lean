import TapeTree.Optimize

/-! Repeated passes. One pass can leave work for the next: what a loop is replaced by is only
merged with its neighbours there. -/

namespace TapeTree

def defaultPasses : Int := 2

/-- The most passes that are run in search of a tree that a pass leaves as it is. -/
def passLimit : Nat := 16

namespace Node

variable {Hole : Type}

def pass (tree : Node Hole) : Node Hole :=
  (optimize tree).getD (.block [])

structure Passed (Hole : Type) where
  tree : Node Hole
  count : Nat

/-- Runs passes, `left` of them at most. When the tree is to settle, the first pass that changes
nothing is the last one. -/
def passLoop [DecidableEq Hole] (settling : Bool) : Nat → Node Hole → Passed Hole
  | 0, tree => ⟨tree, 0⟩
  | left + 1, tree =>
      let result := pass tree
      if settling && result = tree then ⟨tree, 1⟩
      else
        let further := passLoop settling left result
        ⟨further.tree, further.count + 1⟩

/-- Runs the given number of passes, none if it is negative, or with `none` until the tree stops
changing. -/
def runPasses [DecidableEq Hole] (tree : Node Hole) (passes : Option Int) : Passed Hole :=
  passLoop passes.isNone (passes.getD passLimit).toNat tree

def afterPasses : Nat → Node Hole → Node Hole
  | 0, tree => tree
  | count + 1, tree => afterPasses count (pass tree)

theorem passLoop_counted [DecidableEq Hole] (count : Nat) (tree : Node Hole) :
    passLoop false count tree = ⟨afterPasses count tree, count⟩ := by
  induction count generalizing tree with
  | zero => rfl
  | succ count ih => simp [passLoop, ih, afterPasses]

theorem runPasses_counted [DecidableEq Hole] (tree : Node Hole) (count : Int) :
    tree.runPasses (some count) = ⟨afterPasses count.toNat tree, count.toNat⟩ :=
  passLoop_counted count.toNat tree

theorem runPasses_settling [DecidableEq Hole] (tree : Node Hole) :
    tree.runPasses none = passLoop true passLimit tree := rfl

end Node

end TapeTree
