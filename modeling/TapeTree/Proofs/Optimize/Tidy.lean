import TapeTree.Proofs.Optimize.Residue
import TapeTree.Proofs.Optimize.Settling

/-! The shape of trees that passes were run on. A single pass makes a tree tidy at every depth,
also where it leaves folds for the next one, unless nothing is left of the tree. -/

namespace TapeTree.Node

variable {Hole : Type}

theorem pass_tidy (tree : Node Hole) : pass tree = .block [] ∨ (pass tree).Everywhere Tidy := by
  unfold pass
  cases found : optimize tree with
  | none => exact Or.inl rfl
  | some form => exact Or.inr (optimize_tidy tree form found)

def RunsPass : Option Int → Prop
  | some count => 1 ≤ count
  | none => True

theorem RunsPass.exists_pass [DecidableEq Hole] {passes : Option Int} (runs : RunsPass passes)
    (tree : Node Hole) :
    ∃ earlier, (tree.runPasses passes).tree = pass (afterPasses earlier tree) := by
  have last (earlier : Nat) : afterPasses (earlier + 1) tree = pass (afterPasses earlier tree) :=
    (afterPasses_add earlier 1 tree).symm
  cases passes with
  | none => exact ⟨passLimit - 1, (runPasses_none_tree tree).trans (last (passLimit - 1))⟩
  | some count =>
      simp only [RunsPass] at runs
      obtain ⟨earlier, same⟩ : ∃ earlier, count.toNat = earlier + 1 :=
        ⟨count.toNat - 1, by omega⟩
      refine ⟨earlier, ?_⟩
      rw [← last, ← same, runPasses_counted]

theorem RunsPass.tidy [DecidableEq Hole] {passes : Option Int} (runs : RunsPass passes)
    (tree : Node Hole) :
    (tree.runPasses passes).tree = .block [] ∨
      (tree.runPasses passes).tree.Everywhere Tidy := by
  obtain ⟨earlier, same⟩ := runs.exists_pass tree
  rw [same]
  exact pass_tidy (afterPasses earlier tree)

def InRange : Node Hole → Prop
  | .add amount => 0 < amount ∧ amount < cellSize
  | .set value => 0 ≤ value ∧ value < cellSize
  | _ => True

theorem Tidy.inRange {node : Node Hole} (tidy : node.Tidy) (fits : node.FitsCell) :
    node.InRange := by
  cases node with
  | add amount =>
      have least : 0 ≤ amount := fits.1
      have changes : amount ≠ 0 := tidy
      exact ⟨by omega, fits.2⟩
  | set value => exact fits
  | _ => trivial

theorem RunsPass.inRange {passes : Option Int} (runs : RunsPass passes) {strict : Bool}
    {source : String} {tree : Tree} (parsed : Tree.parse strict source = .ok tree) :
    (tree.runPasses passes).tree.Everywhere InRange := by
  have fitsBefore := Tree.fitsCell_fromCommands.parse_everywhere parsed
  obtain ⟨count, same⟩ := runPasses_tree tree passes
  have fits := afterPasses_everywhere fitsCell_maintained count fitsBefore
  rw [← same] at fits
  rcases runs.tidy tree with nothing | tidy
  · rw [nothing]
    exact ⟨trivial, trivial⟩
  · exact Everywhere.mono (fun _ both => both.1.inRange both.2) _ (Everywhere.and _ tidy fits)

/-- After one pass or more, all nodes of a tree do something, and its blocks have several children
and no blocks among them. Only the tree of which nothing is left is an empty block. In the tree of
a source text moreover all numbers for cells are bytes. -/
theorem runPasses_tidy (passes : Option Int) (runs : RunsPass passes) :
    (∀ (Hole : Type) [DecidableEq Hole] (tree : Node Hole),
      (tree.runPasses passes).tree = .block [] ∨
        (tree.runPasses passes).tree.Everywhere Tidy) ∧
    ∀ strict source tree, Tree.parse strict source = .ok tree →
      (tree.runPasses passes).tree.Everywhere InRange := by
  refine ⟨fun _ _ tree => runs.tidy tree, ?_⟩
  intro strict source tree parsed
  exact runs.inRange parsed

/-- The tree is tidy, although it still has neighbours that merge. -/
theorem nested_transfer_runPasses :
    ∃ tree, Tree.parse true "[-]+>[[->+<]+.]-" = .ok tree ∧ RunsPass (some 1) ∧
      (tree.runPasses (some 1)).tree = .block [.set 0, .add 1, .move 1,
        .loop (.block [.addTo 1, .set 0, .add 1, .print]), .add 255] ∧
      (tree.runPasses (some 1)).tree.Everywhere Tidy ∧
      (tree.runPasses (some 1)).tree.Everywhere InRange := by
  have runs : RunsPass (some 1) := Int.le_refl 1
  obtain ⟨tidies, ranges⟩ := runPasses_tidy (some 1) runs
  refine ⟨_, rfl, runs, by decide, ?_, ranges true "[-]+>[[->+<]+.]-" _ rfl⟩
  exact (tidies Empty _).resolve_left (by decide)

end TapeTree.Node
