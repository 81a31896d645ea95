import TapeTree.Proofs.Optimize.Rules
import TapeTree.Proofs.Optimize.Settling

/-! The optimizer keeps what programs do. Runs that end by themselves end in the same way after
any number of passes, and runs that are cut short lose no output. -/

namespace TapeTree.Node

variable {Hole : Type}

/-! Whole passes. -/

theorem Improves.of_nil {tree : Node Hole} (better : Improves [tree] []) :
    Improves [tree] [.block []] := by
  intro setup fuel machine other matched
  have followed := better setup fuel machine other matched
  have steps := matched.steps
  simp only [prepaidAll, prepaid, executeAll_singleton, executeAll_nil] at followed ⊢
  rw [execute_eq setup fuel (.block [])]
  cases ended : tree.prepaid.execute setup fuel machine with
  | finished after =>
      obtain ⟨later, allowed⟩ := execute_finished ended
      rw [ended] at followed
      have matchedAfter := followed.matches_of_finished
      rcases other.tick_cases setup.stepLimit with ⟨counted, _⟩ | ⟨most, limited, tooLow, _⟩
      · rw [counted, Outcome.next_finished, effect, executeAll_nil]
        exact .finished ⟨matchedAfter.bytes, matchedAfter.alike, matchedAfter.console,
          by simp only; omega⟩
      · have within := allowed most limited
        omega
  | halted halt after =>
      rw [ended] at followed
      have output := followed.output
      have later := (precedes_lasting setup.stepLimit).andThen (other.tick_precedes setup.stepLimit)
        (effect_precedes setup fuel (.block [] : Node Hole))
      cases halt with
      | fault cause =>
          obtain ⟨_, finished, _⟩ := followed
          cases finished
      | notByte | stepLimit | hole | outOfFuel =>
          exact .of_output (by simp) (output.trans later.output)

theorem improves_pass (tree : Node Hole) (sets : tree.SetsBytes) :
    Improves [tree] [pass tree] := by
  rcases pass_rewrites tree with ⟨rewrites, nothing⟩ | rewrites
  · rw [nothing]
    exact (rewrites.improves ⟨sets, trivial⟩).of_nil
  · exact rewrites.improves ⟨sets, trivial⟩

theorem improves_afterPasses (count : Nat) (tree : Node Hole) (sets : tree.SetsBytes) :
    Improves [tree] [afterPasses count tree] := by
  induction count generalizing tree with
  | zero => exact .refl ⟨sets, trivial⟩
  | succ count ih =>
      have setsAfter := pass_everywhere setsByte_maintained sets
      exact (improves_pass tree sets).trans (ih (pass tree) setsAfter)

theorem Improves.followedBy {nodes others : List (Node Hole)} (better : Improves nodes others)
    (sets : EverywhereAll SetsByte nodes) (setsOthers : EverywhereAll SetsByte others)
    (setup : Setup) (fuel : Nat) {machine other : Machine} (matched : machine.Matches 4 other) :
    (executeAll setup fuel nodes machine).FollowedBy 4
      (executeAll (setup.scaled 4) fuel others other) := by
  have still : other.Matches 1 other :=
    ⟨matched.bytes.alike matched.alike, .refl _, rfl, by omega⟩
  have paid := executeAll_followedBy_prepaid setup fuel nodes sets matched
  have passed := better (setup.scaled 4) fuel other other still
  have saved := prepaidAll_refinedBy others setsOthers (setup.scaled 4) fuel other other still
  exact (paid.trans passed).trans saved

theorem execute_followedBy_runPasses [DecidableEq Hole] (setup : Setup) (fuel : Nat)
    (tree : Node Hole) (sets : tree.SetsBytes) (passes : Option Int) {machine other : Machine}
    (matched : machine.Matches 4 other) :
    (tree.execute setup fuel machine).FollowedBy 4
      ((tree.runPasses passes).tree.execute (setup.scaled 4) fuel other) := by
  obtain ⟨count, same⟩ := runPasses_tree tree passes
  have setsAfter := afterPasses_everywhere setsByte_maintained count sets
  have followed := (improves_afterPasses count tree sets).followedBy ⟨sets, trivial⟩
    ⟨setsAfter, trivial⟩ setup fuel matched
  rwa [executeAll_singleton, executeAll_singleton, ← same] at followed

/-- The optimizer keeps the ends of all runs without a step limit: those that finish, and those
that end in a failing call. -/
theorem runPasses_preserves_ends [DecidableEq Hole] (faults : Faults) (tree : Node Hole)
    (sets : tree.SetsBytes) (passes : Option Int) (machine : Machine)
    (bytes : machine.tape.HoldsBytes) :
    (∀ after, tree.Ends { faults } machine (.finished after) →
      ∃ other, (tree.runPasses passes).tree.Ends { faults } machine (.finished other) ∧
        after.tape.Alike other.tape ∧ after.console = other.console) ∧
    ∀ cause after, tree.Ends { faults } machine (.halted (.fault cause) after) →
      ∃ other,
        (tree.runPasses passes).tree.Ends { faults } machine (.halted (.fault cause) other) ∧
        after.tape.Alike other.tape ∧ after.console = other.console := by
  have follows (fuel : Nat) := execute_followedBy_runPasses { faults } fuel tree sets passes
    (show machine.Matches 4 machine from ⟨bytes, .refl _, rfl, by omega⟩)
  constructor
  · rintro after ⟨_, fuel, ended⟩
    have followed := follows fuel
    rw [ended] at followed
    obtain ⟨other, finished, matched⟩ := followed
    exact ⟨other, ⟨by simp [Outcome.halt?], fuel, finished⟩, matched.alike, matched.console⟩
  · rintro cause after ⟨_, fuel, ended⟩
    have followed := follows fuel
    rw [ended] at followed
    obtain ⟨other, halted, matched⟩ := followed
    exact ⟨other, ⟨by simp [Outcome.halt?], fuel, halted⟩, matched.alike, matched.console⟩

theorem clearing_loop_runPasses :
    ∃ other, ((.block [.loop (.add 255), .print] : Tree).runPasses none).tree.Ends {}
        { tape := ({} : Tape).setCurrent 2 } (.finished other) ∧
      other.tape.current = 0 ∧ other.console.output = #[0] := by
  have bytes : (({} : Tape).setCurrent 2).HoldsBytes := Tape.HoldsBytes.blank.setCurrent (by decide)
  have sets : (.block [.loop (.add 255), .print] : Tree).SetsBytes := by
    simp [SetsBytes, Everywhere, EverywhereAll, SetsByte]
  obtain ⟨after, ran, zero, output⟩ : ∃ after,
      (.block [.loop (.add 255), .print] : Tree).execute {} 2
        { tape := ({} : Tape).setCurrent 2 } = .finished after ∧
      after.tape.current = 0 ∧ after.console.output = #[0] := by
    simp [execute_eq, effect, executeAll_cons, Machine.tick, Machine.rounds, Machine.add,
      Machine.setCurrent, Machine.write, cellSize, byte?, Console.write, Console.flush]
  obtain ⟨other, ends, alike, console⟩ := (runPasses_preserves_ends {} _ sets none _ bytes).1 after
    ⟨by simp [Outcome.halt?], 2, ran⟩
  refine ⟨other, ends, ?_, ?_⟩
  · rw [← alike.current, zero]
  · rw [← console, output]

/-- Under a step limit the optimized tree puts out at least what the tree does when it is given
four times the steps. -/
theorem runPasses_output_prefix [DecidableEq Hole] (faults : Faults) (tree : Node Hole)
    (sets : tree.SetsBytes) (passes : Option Int) (budget : Nat) (machine : Machine)
    (bytes : machine.tape.HoldsBytes) (fresh : machine.steps = 0) :
    ∃ outcome ending,
      tree.Ends { faults, stepLimit := some budget } machine outcome ∧
      (tree.runPasses passes).tree.Ends { faults, stepLimit := some (4 * budget) } machine ending ∧
      outcome.machine.console.output.toList <+: ending.machine.console.output.toList := by
  have matched : machine.Matches 4 machine := ⟨bytes, .refl _, rfl, by omega⟩
  have followed := execute_followedBy_runPasses { faults, stepLimit := some budget }
    (4 * budget + 1) tree sets passes matched
  refine ⟨_, _, ends_of_limited rfl tree machine ?_, ends_of_limited rfl _ machine ?_,
    followed.output⟩ <;>
  · push_cast
    omega

theorem cut_loop_runPasses :
    ∃ outcome ending,
      (.loop (.block [.print, .add 255]) : Tree).Ends { stepLimit := some 7 }
        { tape := ({} : Tape).setCurrent 2 } outcome ∧
      ((.loop (.block [.print, .add 255]) : Tree).runPasses (some 1)).tree.Ends
        { stepLimit := some 28 } { tape := ({} : Tape).setCurrent 2 } ending ∧
      outcome.machine.console.output.toList <+: ending.machine.console.output.toList := by
  have bytes : (({} : Tape).setCurrent 2).HoldsBytes := Tape.HoldsBytes.blank.setCurrent (by decide)
  have sets : (.loop (.block [.print, .add 255]) : Tree).SetsBytes := by
    simp [SetsBytes, Everywhere, EverywhereAll, SetsByte]
  exact runPasses_output_prefix {} _ sets (some 1) 7 { tape := ({} : Tape).setCurrent 2 } bytes rfl

end TapeTree.Node
