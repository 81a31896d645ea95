import TapeTree.Parse
import TapeTree.Proofs.Optimize.Rewriting

/-! How many passes a tree needs until a further one leaves it as it is. A pass that changes a
tree takes nodes away, so the passes come to an end, but not always within the limit on them. -/

namespace TapeTree.Node

variable {Hole : Type} {erases : Prop}

theorem size_pos (node : Node Hole) : 0 < node.size := by
  cases node <;> simp only [size] <;> omega

theorem size_of_isInstruction {node : Node Hole} (instruction : node.IsInstruction) :
    node.size = 1 := by
  cases node with
  | block => cases instruction
  | loop => cases instruction
  | move | add | set | print | read | addTo | hole => rfl

theorem sizeAll_append (nodes others : List (Node Hole)) :
    sizeAll (nodes ++ others) = sizeAll nodes + sizeAll others := by
  induction nodes with
  | nil => simp only [List.nil_append, sizeAll, Nat.zero_add]
  | cons node rest ih =>
      rw [List.cons_append, sizeAll, sizeAll, ih]
      omega

theorem Rewrites.shrinks {nodes others : List (Node Hole)}
    (rewrites : Rewrites erases nodes others) :
    others = nodes ∨ sizeAll others < sizeAll nodes := by
  induction rewrites with
  | refl => exact Or.inl rfl
  | trans _ _ left right =>
      rcases left with rfl | smaller
      · exact right
      · rcases right with rfl | further
        · exact Or.inr smaller
        · exact Or.inr (Nat.lt_trans further smaller)
  | append _ _ front back =>
      rw [sizeAll_append, sizeAll_append]
      rcases front with rfl | smaller
      · rcases back with rfl | further
        · exact Or.inl rfl
        · exact Or.inr (by omega)
      · rcases back with rfl | further
        · exact Or.inr (by omega)
        · exact Or.inr (by omega)
  | block _ inside =>
      rcases inside with rfl | smaller
      · exact Or.inl rfl
      · simp only [sizeAll, size]
        exact Or.inr (by omega)
  | loop _ inside =>
      rcases inside with same | smaller
      · cases same
        exact Or.inl rfl
      · simp only [sizeAll, size] at smaller ⊢
        exact Or.inr (by omega)
  | unblock nodes =>
      simp only [sizeAll, size]
      exact Or.inr (by omega)
  | @idle node =>
      have counts := size_pos node
      exact Or.inr (by simp only [sizeAll]; omega)
  | hole => exact Or.inr (by simp only [sizeAll, size]; omega)
  | @merged first second _ found =>
      have alone := size_of_isInstruction (merge?_isInstruction found)
      have firstCounts := size_pos first
      have secondCounts := size_pos second
      simp only [sizeAll]
      exact Or.inr (by omega)
  | erased => exact Or.inr (by simp only [sizeAll, size]; omega)
  | @cleared body =>
      have counts := size_pos body
      simp only [sizeAll, size]
      exact Or.inr (by omega)
  | transferred found =>
      rcases transfer?_eq_some found with
        ⟨out, back, rfl, _, rfl⟩ | ⟨out, further, back, rfl, _, rfl⟩
      · exact Or.inr (by simp only [sizeAll, size]; omega)
      · exact Or.inr (by simp only [sizeAll, size]; omega)

/-- The nodes that passes can take away. Of an empty block there are none. -/
def weight : Node Hole → Nat
  | .block [] => 0
  | tree => tree.size

theorem weight_le_size (tree : Node Hole) : tree.weight ≤ tree.size := by
  unfold weight
  split
  · exact Nat.zero_le _
  · exact Nat.le_refl _

theorem weight_of_filled {tree : Node Hole} (filled : tree ≠ .block []) :
    tree.weight = tree.size := by
  unfold weight
  split
  · contradiction
  · rfl

theorem optimize_smaller (tree : Node Hole) :
    optimize tree = none ∨ optimize tree = some tree ∨
      ∃ form, optimize tree = some form ∧ form.size < tree.size := by
  have shrinks := (optimize_rewrites_erasing tree).shrinks
  cases found : optimize tree with
  | none => exact Or.inl rfl
  | some form =>
      rw [found] at shrinks
      simp only [Option.toList_some, sizeAll, List.cons.injEq, and_true, Nat.add_zero] at shrinks
      rcases shrinks with rfl | smaller
      · exact Or.inr (Or.inl rfl)
      · exact Or.inr (Or.inr ⟨form, rfl, smaller⟩)

theorem pass_lighter (tree : Node Hole) :
    pass tree = tree ∨ (pass tree).weight < tree.weight := by
  by_cases filled : tree = .block []
  · rw [filled]
    exact Or.inl rfl
  · rw [weight_of_filled filled, pass]
    rcases optimize_smaller tree with erased | same | ⟨form, found, smaller⟩
    · rw [erased]
      exact Or.inr (size_pos tree)
    · rw [same]
      exact Or.inl rfl
    · have lighter := weight_le_size form
      rw [found, Option.getD_some]
      exact Or.inr (by omega)

theorem afterPasses_add (first second : Nat) (tree : Node Hole) :
    afterPasses second (afterPasses first tree) = afterPasses (first + second) tree := by
  induction first generalizing tree with
  | zero => rw [afterPasses, Nat.zero_add]
  | succ first ih => rw [afterPasses, ih, Nat.succ_add, afterPasses]

def Stable (tree : Node Hole) : Prop :=
  pass tree = tree

/-- It takes this many passes, and no fewer, to settle the tree. -/
def SettlesAfter (tree : Node Hole) (needed : Nat) : Prop :=
  ∀ count, (afterPasses count tree).Stable ↔ needed ≤ count

theorem Stable.stays {tree : Node Hole} (stable : tree.Stable) (count : Nat) :
    afterPasses count tree = tree := by
  induction count with
  | zero => rfl
  | succ count ih => rw [afterPasses, stable, ih]

theorem afterPasses_of_stable {tree : Node Hole} {count more : Nat}
    (stable : (afterPasses count tree).Stable) (enough : count ≤ more) :
    afterPasses more tree = afterPasses count tree := by
  have further := afterPasses_add count (more - count) tree
  rw [stable.stays, Nat.add_sub_cancel' enough] at further
  exact further.symm

theorem afterPasses_weight (count : Nat) (tree : Node Hole) :
    (afterPasses count tree).weight ≤ tree.weight := by
  induction count generalizing tree with
  | zero => exact Nat.le_refl _
  | succ count ih =>
      have later := ih (pass tree)
      rw [afterPasses]
      rcases pass_lighter tree with same | lighter
      · rw [same] at later ⊢
        exact later
      · omega

theorem stable_of_return {tree : Node Hole} {count : Nat} (more : 0 < count)
    (back : afterPasses count tree = tree) : tree.Stable := by
  rcases pass_lighter tree with same | lighter
  · exact same
  · obtain ⟨fewer, rfl⟩ : ∃ fewer, count = fewer + 1 := ⟨count - 1, by omega⟩
    have later := afterPasses_weight fewer (pass tree)
    rw [afterPasses] at back
    rw [back] at later
    omega

theorem exists_settlesAfter (tree : Node Hole) :
    ∃ needed ≤ tree.weight, tree.SettlesAfter needed := by
  generalize weighs : tree.weight = most
  induction most using Nat.strongRecOn generalizing tree with
  | ind most ih =>
      by_cases stable : tree.Stable
      · refine ⟨0, Nat.zero_le most, ?_⟩
        intro count
        rw [stable.stays]
        exact iff_of_true stable (Nat.zero_le count)
      · have lighter := (pass_lighter tree).resolve_left stable
        obtain ⟨needed, bound, settles⟩ := ih (pass tree).weight (by omega) (pass tree) rfl
        refine ⟨needed + 1, by omega, ?_⟩
        intro count
        cases count with
        | zero => exact iff_of_false stable (by omega)
        | succ count =>
            rw [afterPasses, settles]
            omega

namespace SettlesAfter

variable {tree : Node Hole} {needed : Nat}

theorem stable_iff (settles : tree.SettlesAfter needed) : tree.Stable ↔ needed = 0 := by
  have now := settles 0
  rwa [Nat.le_zero] at now

theorem later (settles : tree.SettlesAfter needed) (count : Nat) :
    (afterPasses count tree).SettlesAfter (needed - count) := by
  intro further
  rw [afterPasses_add, settles]
  omega

theorem passLoop_eq [DecidableEq Hole] (settles : tree.SettlesAfter needed) (limit : Nat) :
    passLoop true limit tree = ⟨afterPasses (min needed limit) tree, min (needed + 1) limit⟩ := by
  induction limit generalizing tree needed with
  | zero => rw [passLoop, Nat.min_zero, Nat.min_zero, afterPasses]
  | succ limit ih =>
      rw [passLoop]
      simp only [Bool.true_and, decide_eq_true_eq]
      split
      · rename_i stable
        have enough : needed = 0 := settles.stable_iff.mp stable
        rw [enough, Nat.zero_min, Nat.zero_add, Nat.min_eq_left (by omega), afterPasses]
      · rename_i changed
        have short : needed ≠ 0 := fun enough => changed (settles.stable_iff.mpr enough)
        obtain ⟨fewer, rfl⟩ : ∃ fewer, needed = fewer + 1 := ⟨needed - 1, by omega⟩
        have rest := ih (show (pass tree).SettlesAfter fewer from settles.later 1)
        simp only [rest, Nat.add_min_add_right, afterPasses]

theorem runPasses_tree [DecidableEq Hole] (settles : tree.SettlesAfter needed) :
    (tree.runPasses none).tree = afterPasses (min needed passLimit) tree := by
  rw [runPasses_settling, settles.passLoop_eq]

end SettlesAfter

theorem runPasses_none_tree [DecidableEq Hole] (tree : Node Hole) :
    (tree.runPasses none).tree = afterPasses passLimit tree := by
  obtain ⟨needed, _, settles⟩ := exists_settlesAfter tree
  rw [settles.runPasses_tree]
  by_cases within : needed ≤ passLimit
  · rw [Nat.min_eq_left within]
    exact (afterPasses_of_stable ((settles needed).mpr (Nat.le_refl needed)) within).symm
  · rw [Nat.min_eq_right (Nat.le_of_not_le within)]

theorem runPasses_tree [DecidableEq Hole] (tree : Node Hole) (passes : Option Int) :
    ∃ count, (tree.runPasses passes).tree = afterPasses count tree := by
  cases passes with
  | none => exact ⟨passLimit, runPasses_none_tree tree⟩
  | some passes => exact ⟨passes.toNat, by rw [runPasses_counted]⟩

/-- Passes settle every tree, and the limit on them decides whether as many are run. Only then is
the tree left as it is by one more pass, and by as many more as the limit allows. -/
theorem runPasses_settles [DecidableEq Hole] (tree : Node Hole) :
    ∃ needed ≤ tree.size, tree.SettlesAfter needed ∧
      (tree.runPasses none).tree = afterPasses (min needed passLimit) tree ∧
      (((tree.runPasses none).tree.runPasses (some 1)).tree = (tree.runPasses none).tree ↔
        needed ≤ passLimit) ∧
      (((tree.runPasses none).tree.runPasses none).tree = (tree.runPasses none).tree ↔
        needed ≤ passLimit) := by
  obtain ⟨needed, bound, settles⟩ := exists_settlesAfter tree
  have within : needed ≤ tree.size := Nat.le_trans bound (weight_le_size tree)
  have reached := settles.runPasses_tree
  have enough : (afterPasses (min needed passLimit) tree).Stable ↔ needed ≤ passLimit := by
    rw [settles]
    omega
  refine ⟨needed, within, settles, reached, ?_, ?_⟩
  · rw [reached]
    exact enough
  · have again := (settles.later (min needed passLimit)).runPasses_tree
    rw [reached, again]
    constructor
    · intro same
      by_cases short : needed ≤ passLimit
      · exact short
      · have more : 0 < min (needed - min needed passLimit) passLimit := by
          simp only [passLimit] at short ⊢
          omega
        exact enough.mp (stable_of_return more same)
    · intro fits
      exact (enough.mpr fits).stays _

/-- Each pass cancels the innermost pair only, and there are more pairs than passes. -/
theorem nested_pairs_runPasses :
    ∃ tree, Tree.parse false "+>+>+>+>+>+>+>+>+-<-<-<-<-<-<-<-<-" = .ok tree ∧
      ((tree.runPasses none).tree.runPasses (some 1)).tree ≠ (tree.runPasses none).tree ∧
      ((tree.runPasses none).tree.runPasses none).tree ≠ (tree.runPasses none).tree :=
  ⟨_, rfl, by decide, by decide⟩

end TapeTree.Node
