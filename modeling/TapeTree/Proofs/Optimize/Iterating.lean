import Mathlib.Logic.Function.Iterate
import Mathlib.Order.Bounds.Defs
import TapeTree.Proofs.Optimize.Settling

/-! Runs of passes as iterates of a single pass. Iterated without a limit, passes come to a tree
that they leave as it is, after no more of them than the first tree has nodes. Passes that are
counted and passes that go on until nothing changes are two ways to stop on the same road. -/

namespace TapeTree.Node

variable {Hole : Type}

theorem afterPasses_eq_iterate (count : Nat) (tree : Node Hole) :
    afterPasses count tree = pass^[count] tree := by
  induction count generalizing tree with
  | zero => rfl
  | succ count ih => rw [afterPasses, ih, Function.iterate_succ_apply]

theorem iterate_stable_iff {tree : Node Hole} {count : Nat} :
    (pass^[count] tree).Stable ↔ pass^[count + 1] tree = pass^[count] tree := by
  rw [Function.iterate_succ_apply', Stable]

theorem runPasses_some [DecidableEq Hole] (tree : Node Hole) (count : Nat) :
    tree.runPasses (some count) = ⟨pass^[count] tree, count⟩ := by
  rw [runPasses_counted, Int.toNat_natCast, afterPasses_eq_iterate]

namespace SettlesAfter

variable {tree : Node Hole} {needed : Nat}

theorem isLeast (settles : tree.SettlesAfter needed) :
    IsLeast {count | pass^[count + 1] tree = pass^[count] tree} needed := by
  have unchanged (count : Nat) : pass^[count + 1] tree = pass^[count] tree ↔ needed ≤ count := by
    rw [← iterate_stable_iff, ← afterPasses_eq_iterate]
    exact settles count
  constructor
  · exact (unchanged needed).mpr (Nat.le_refl needed)
  · intro count same
    exact (unchanged count).mp same

theorem iterate_eq (settles : tree.SettlesAfter needed) {count : Nat} (enough : needed ≤ count) :
    pass^[count] tree = pass^[needed] tree := by
  have stable := (settles needed).mpr (Nat.le_refl needed)
  have same := afterPasses_of_stable stable enough
  rwa [afterPasses_eq_iterate, afterPasses_eq_iterate] at same

theorem runPasses_none [DecidableEq Hole] (settles : tree.SettlesAfter needed) :
    tree.runPasses none =
      if needed < passLimit then ⟨pass^[needed] tree, needed + 1⟩
      else ⟨pass^[passLimit] tree, passLimit⟩ := by
  rw [runPasses_settling, settles.passLoop_eq, afterPasses_eq_iterate]
  split
  · rw [Nat.min_eq_left (by omega), Nat.min_eq_left (by omega)]
  · rw [Nat.min_eq_right (by omega), Nat.min_eq_right (by omega)]

end SettlesAfter

/-- A pass erases a tree, leaves it as it is or makes it smaller. So passes change nothing more
once there were as many as the tree has nodes, and for a tree with fewer nodes than the limit on
passes, that is where they are stopped. -/
theorem passes_converge [DecidableEq Hole] (tree : Node Hole) :
    (optimize tree = none ∨ optimize tree = some tree ∨
      ∃ form, optimize tree = some form ∧ form.size < tree.size) ∧
    (∀ count, tree.size ≤ count → pass^[count] tree = pass^[tree.size] tree) ∧
    (tree.size < passLimit →
      (tree.runPasses none).tree.Stable ∧
        (tree.runPasses none).tree = pass^[tree.size] tree) := by
  obtain ⟨needed, light, settles⟩ := exists_settlesAfter tree
  have within : needed ≤ tree.size := Nat.le_trans light (weight_le_size tree)
  have last := settles.iterate_eq within
  refine ⟨optimize_smaller tree, ?_, ?_⟩
  · intro count enough
    rw [settles.iterate_eq (Nat.le_trans within enough), last]
  · intro small
    have reached : (tree.runPasses none).tree = pass^[needed] tree := by
      rw [settles.runPasses_none, if_pos (Nat.lt_of_le_of_lt within small)]
    rw [reached, last]
    exact ⟨iterate_stable_iff.mpr settles.isLeast.1, rfl⟩

theorem nested_moves_converge :
    ∃ tree, Tree.parse false "+><-" = .ok tree ∧ tree.size < passLimit ∧ tree.size ≤ 9 ∧
      (tree.runPasses none).tree.Stable ∧ pass^[9] tree = .block [] ∧
      pass^[1] tree ≠ .block [] := by
  refine ⟨_, rfl, by decide, by decide, ?_, ?_, by decide⟩
  · exact ((passes_converge _).2.2 (by decide)).1
  · rw [(passes_converge _).2.1 9 (by decide)]
    decide

/-- Counted passes are run one after the other, none for a negative count. Without a count it is
the passes up to the first one that changes nothing, and that one is counted too; if it is not
among the first sixteen, it is those. So both ways agree at the limit, and counts add up. -/
theorem runPasses_modes_agree [DecidableEq Hole] (tree : Node Hole) :
    (∀ count : Nat, tree.runPasses (some count) = ⟨pass^[count] tree, count⟩) ∧
    (∀ count : Int, count < 0 → tree.runPasses (some count) = ⟨tree, 0⟩) ∧
    (∃ least, IsLeast {count | pass^[count + 1] tree = pass^[count] tree} least ∧
      tree.runPasses none =
        if least ≤ 15 then ⟨pass^[least] tree, least + 1⟩ else ⟨pass^[16] tree, 16⟩) ∧
    (tree.runPasses none).tree = (tree.runPasses (some 16)).tree ∧
    ∀ first second : Nat, ((tree.runPasses (some first)).tree.runPasses (some second)).tree =
      (tree.runPasses (some (first + second))).tree := by
  refine ⟨runPasses_some tree, ?_, ?_, ?_, ?_⟩
  · intro count negative
    rw [runPasses_counted, Int.toNat_of_nonpos (Int.le_of_lt negative), afterPasses]
  · obtain ⟨needed, _, settles⟩ := exists_settlesAfter tree
    have within : needed < 16 ↔ needed ≤ 15 := Nat.lt_succ_iff
    refine ⟨needed, settles.isLeast, ?_⟩
    simp only [settles.runPasses_none, passLimit, within]
  · have limit : Int.toNat 16 = passLimit := rfl
    rw [runPasses_none_tree, runPasses_counted, limit]
  · intro first second
    have together := runPasses_some tree (first + second)
    rw [Int.natCast_add] at together
    rw [runPasses_some, runPasses_some, together, Nat.add_comm, Function.iterate_add_apply]

/-- These pairs cancel from the inside, one in each pass, and the limit comes two passes early. -/
theorem nested_pairs_modes_agree :
    ∃ tree, Tree.parse false "+>+>+>+>+>+>+>+>+><-<-<-<-<-<-<-<-<-" = .ok tree ∧
      (-3 : Int) < 0 ∧ tree.runPasses (some (-3)) = ⟨tree, 0⟩ ∧
      (tree.runPasses none).count = 16 ∧
      ((tree.runPasses none).tree.runPasses (some 2)).tree = (tree.runPasses (some 18)).tree ∧
      (tree.runPasses (some 18)).tree = .block [] := by
  have agree (tree : Tree) := runPasses_modes_agree tree
  refine ⟨_, rfl, by decide, ?_, by decide, ?_, by decide⟩
  · exact (agree _).2.1 (-3) (by decide)
  · obtain ⟨_, _, _, limited, added⟩ := agree _
    rw [limited]
    exact added 16 2

end TapeTree.Node
