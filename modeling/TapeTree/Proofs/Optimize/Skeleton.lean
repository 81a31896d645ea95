import TapeTree.Optimize.Skeleton
import TapeTree.Proofs.Optimize.Settling

/-! Passes keep the skeleton of a tree. What they take away, merge or put in the place of a loop
has no input or output instructions in it, and the loops that are left stand around the same ones
as before. -/

namespace TapeTree.Node

variable {Hole : Type} {erases : Prop}

theorem skeletonAll_append (nodes others : List (Node Hole)) :
    skeletonAll (nodes ++ others) = skeletonAll nodes ++ skeletonAll others := by
  induction nodes with
  | nil => rfl
  | cons node rest ih =>
      rw [List.cons_append, skeletonAll, skeletonAll, ih, List.append_assoc]

theorem skeletonAll_singleton (node : Node Hole) : skeletonAll [node] = node.skeleton := by
  rw [skeletonAll, skeletonAll, List.append_nil]

theorem skeleton_of_isIdle {node : Node Hole} (idle : node.isIdle) : node.skeleton = [] := by
  cases node with
  | move | add => rfl
  | _ => cases idle

theorem skeleton_of_clears {body : Node Hole} (clearing : body.clears) : body.skeleton = [] := by
  cases body with
  | add => rfl
  | _ => cases clearing

theorem merged_skeletonAll {first second merged : Node Hole}
    (found : merge? first second = some merged) :
    skeletonAll [merged] = skeletonAll [first, second] := by
  rcases merge?_eq_some found with
    ⟨_, _, rfl, rfl, rfl⟩ | ⟨_, _, rfl, rfl, rfl⟩ | ⟨_, _, rfl, rfl, rfl⟩ |
    ⟨_, _, rfl, rfl, rfl⟩ <;> rfl

theorem transferred_skeleton {children : List (Node Hole)} {stand : Node Hole}
    (found : transfer? children = some stand) :
    stand.skeleton = [] ∧ skeletonAll children = [] := by
  rcases transfer?_eq_some found with
    ⟨out, back, rfl, _, rfl⟩ | ⟨out, further, back, rfl, _, rfl⟩ <;> exact ⟨rfl, rfl⟩

theorem Rewrites.skeletonAll_eq {nodes others : List (Node Hole)}
    (rewrites : Rewrites erases nodes others) : skeletonAll others = skeletonAll nodes := by
  induction rewrites with
  | refl => rfl
  | trans _ _ left right => exact right.trans left
  | append _ _ front back => rw [skeletonAll_append, skeletonAll_append, front, back]
  | block _ inside =>
      rw [skeletonAll_singleton, skeletonAll_singleton, skeleton, skeleton, inside]
  | loop _ inside =>
      rw [skeletonAll_singleton, skeletonAll_singleton] at inside
      rw [skeletonAll_singleton, skeletonAll_singleton, skeleton, skeleton, inside]
  | unblock => rw [skeletonAll_singleton, skeleton]
  | idle idle => rw [skeletonAll_singleton, skeleton_of_isIdle idle, skeletonAll]
  | hole => rfl
  | merged found => exact merged_skeletonAll found
  | erased _ _ inside =>
      -- the body came to nothing, so there was no such instruction in it to begin with
      rw [skeletonAll_singleton, skeletonAll] at inside
      rw [skeletonAll_singleton, skeleton, ← inside]
      rfl
  | cleared clearing =>
      rw [skeletonAll_singleton, skeletonAll_singleton, skeleton, skeleton_of_clears clearing]
      rfl
  | transferred found =>
      obtain ⟨stands, inside⟩ := transferred_skeleton found
      rw [skeletonAll_singleton, skeletonAll_singleton, stands, skeleton, skeleton, inside]
      rfl

theorem pass_skeleton (tree : Node Hole) : (pass tree).skeleton = tree.skeleton := by
  rcases pass_rewrites tree with ⟨rewrites, nothing⟩ | rewrites
  · have same := rewrites.skeletonAll_eq
    rw [skeletonAll_singleton] at same
    rw [nothing, skeleton, same]
  · have same := rewrites.skeletonAll_eq
    rwa [skeletonAll_singleton, skeletonAll_singleton] at same

theorem afterPasses_skeleton (count : Nat) (tree : Node Hole) :
    (afterPasses count tree).skeleton = tree.skeleton := by
  induction count generalizing tree with
  | zero => rfl
  | succ count ih => rw [afterPasses, ih, pass_skeleton]

/-- However many passes are run, the input and output instructions stay as they are: none is lost,
doubled, moved past another one or moved across the ends of a loop. -/
theorem runPasses_skeleton [DecidableEq Hole] (tree : Node Hole) (passes : Option Int) :
    (tree.runPasses passes).tree.skeleton = tree.skeleton := by
  obtain ⟨count, same⟩ := runPasses_tree tree passes
  rw [same]
  exact afterPasses_skeleton count tree

/-- A loop with no such instruction in it leaves no trace, whether it is still there or not. -/
example :
    let tree : Tree := .block [.print, .loop (.block [.add 1, .move 1]), .loop (.block [.read])]
    tree.skeleton = [.print, .loop [.read]] ∧
      (tree.runPasses none).tree.skeleton = [.print, .loop [.read]] :=
  ⟨rfl, rfl⟩

end TapeTree.Node
