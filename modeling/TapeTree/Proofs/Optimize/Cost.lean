import TapeTree.Proofs.Machine.Unnoticed
import TapeTree.Proofs.Optimize.Sound

/-! The steps that optimized trees take. A single rewriting can make a run longer, but loops paid
in advance cover it, so the factor does not depend on the number of passes. -/

namespace TapeTree.Node

variable {Hole : Type}

/-- Without a step limit, a run of the optimized tree takes at most four times the steps. -/
theorem runPasses_steps [DecidableEq Hole] (faults : Faults) (tree : Node Hole)
    (sets : tree.SetsBytes) (passes : Option Int) (machine : Machine)
    (bytes : machine.tape.HoldsBytes) (outcome : Outcome)
    (ends : tree.Ends { faults } machine outcome) (cause : Option IoFault)
    (own : outcome.halt? = cause.map Halt.fault) (raised : Nat)
    (counted : outcome.machine.steps = machine.steps + raised) :
    ∃ ending, (tree.runPasses passes).tree.Ends { faults } machine ending ∧
      ending.halt? = cause.map Halt.fault ∧
      machine.steps ≤ ending.machine.steps ∧
      ending.machine.steps ≤ machine.steps + 4 * raised := by
  obtain ⟨_, fuel, ran⟩ := ends
  -- the same runs from a counter of zero, where the factor of four counts from
  let fresh : Machine := { machine with steps := 0 }
  have started : fresh.later machine.steps = machine := machine.later_steps
  have before := execute_later faults fuel tree machine.steps fresh
  have behind := execute_later faults fuel (tree.runPasses passes).tree machine.steps fresh
  rw [started] at before behind
  have followed := execute_followedBy_runPasses { faults } fuel tree sets passes
    (show fresh.Matches 4 fresh from ⟨bytes, .refl _, rfl, by omega⟩)
  have freshOwn : (tree.execute { faults } fuel fresh).halt? = cause.map Halt.fault := by
    rw [← own, ← ran, before, Outcome.halt?_changed]
  obtain ⟨sameEnd, matched⟩ := followed.matches_of_end freshOwn
  have raisedFresh : (tree.execute { faults } fuel fresh).machine.steps = raised := by
    rw [← ran, before, Outcome.machine_changed] at counted
    simp only [Machine.later] at counted
    omega
  have steps := matched.steps
  refine ⟨(tree.runPasses passes).tree.execute { faults } fuel machine, ⟨?_, fuel, rfl⟩, ?_, ?_, ?_⟩
  · rw [behind, Outcome.halt?_changed]
    exact Outcome.halt?_ne_outOfFuel sameEnd
  · rw [behind, Outcome.halt?_changed]
    exact sameEnd
  · exact (execute_precedes _ fuel _ machine).steps
  · rw [behind, Outcome.machine_changed]
    simp only [Machine.later]
    change ((tree.runPasses passes).tree.execute { faults } fuel fresh).machine.steps ≤ _ at steps
    omega

/-- On a cell of zero a transfer costs more steps than the loop in whose place it stands. -/
theorem idle_transfer_steps :
    ∃ ending,
      ((.loop (.block [.add 255, .move 1, .add 1, .move (-1)]) : Tree).runPasses none).tree.Ends {}
        { steps := 5 } ending ∧
      5 ≤ ending.machine.steps ∧ ending.machine.steps ≤ 9 := by
  have sets : (.loop (.block [.add 255, .move 1, .add 1, .move (-1)]) : Tree).SetsBytes := by
    simp [SetsBytes, Everywhere, EverywhereAll, SetsByte]
  have skipped : (.loop (.block [.add 255, .move 1, .add 1, .move (-1)]) : Tree).Ends {}
      { steps := 5 } (.finished { steps := 6 }) := by
    refine ⟨by simp [Outcome.halt?], 0, ?_⟩
    simp [execute_eq, effect, Machine.tick, Machine.rounds, Tape.current, Tape.cellAt]
  obtain ⟨ending, ends, _, least, most⟩ := runPasses_steps {} _ sets none { steps := 5 } .blank
    (.finished { steps := 6 }) skipped none rfl 1 rfl
  exact ⟨ending, ends, least, most⟩

end TapeTree.Node
