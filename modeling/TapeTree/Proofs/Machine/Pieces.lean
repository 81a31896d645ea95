import TapeTree.Proofs.Machine.Halts
import TapeTree.Proofs.Machine.Unnoticed
import TapeTree.Proofs.Optimize.Sound
import TapeTree.Proofs.Tree.Joining

/-! A program that is run in two pieces, one after the other on one machine. The second piece goes
on as the whole program would, with one more step counted: that of its own block. -/

namespace TapeTree

namespace Node

variable {Hole : Type} {faults : Faults} {machine middle : Machine}

theorem execute_block (faults : Faults) (fuel : Nat) (nodes : List (Node Hole))
    (machine : Machine) :
    (.block nodes : Node Hole).execute { faults } fuel machine =
      executeAll { faults } fuel nodes (machine.later 1) := by
  rw [execute_eq]
  rfl

theorem execute_pieces {fuel : Nat} {nodes others : List (Node Hole)}
    (finished : (.block nodes : Node Hole).execute { faults } fuel machine = .finished middle) :
    (.block others : Node Hole).execute { faults } fuel middle =
      ((.block (nodes ++ others) : Node Hole).execute { faults } fuel machine).changed
        (.later 1) := by
  rw [execute_block] at finished
  calc (.block others : Node Hole).execute { faults } fuel middle
      = executeAll { faults } fuel others (middle.later 1) := execute_block faults fuel others middle
    _ = (executeAll { faults } fuel others middle).changed (.later 1) :=
        executeAll_later faults fuel others 1 middle
    _ = ((executeAll { faults } fuel nodes (machine.later 1)).next
          (executeAll { faults } fuel others)).changed (.later 1) := by
        rw [finished, Outcome.next_finished]
    _ = (executeAll { faults } fuel (nodes ++ others) (machine.later 1)).changed (.later 1) := by
        rw [executeAll_append]
    _ = ((.block (nodes ++ others) : Node Hole).execute { faults } fuel machine).changed
          (.later 1) := by
        rw [execute_block]

theorem ends_pieces_iff {nodes others : List (Node Hole)}
    (first : (.block nodes : Node Hole).Ends { faults } machine (.finished middle))
    (ending : Outcome) :
    (.block others : Node Hole).Ends { faults } middle ending ↔
      ∃ outcome, (.block (nodes ++ others) : Node Hole).Ends { faults } machine outcome ∧
        ending = outcome.changed (.later 1) := by
  constructor
  · intro ends
    obtain ⟨fuel, finished, ran⟩ := first.together ends
    have fed := ends.1
    rw [execute_pieces finished] at ran
    rw [← ran, Outcome.halt?_changed] at fed
    exact ⟨_, ⟨fed, fuel, rfl⟩, ran.symm⟩
  · rintro ⟨outcome, ends, rfl⟩
    obtain ⟨fuel, finished, ran⟩ := first.together ends
    refine ⟨?_, fuel, ?_⟩
    · rw [Outcome.halt?_changed]
      exact ends.1
    · rw [execute_pieces finished, ran]

/-- A run of the whole that ends has come to the end of the first piece or was halted in it. -/
theorem Ends.first_piece {nodes others : List (Node Hole)} {outcome : Outcome}
    (ends : (.block (nodes ++ others) : Node Hole).Ends { faults } machine outcome) :
    (∃ middle, (.block nodes : Node Hole).Ends { faults } machine (.finished middle)) ∨
      outcome.halt? ≠ none ∧ (.block nodes : Node Hole).Ends { faults } machine outcome := by
  obtain ⟨fed, fuel, ran⟩ := ends
  rw [execute_block, executeAll_append] at ran
  cases ended : executeAll { faults } fuel nodes (machine.later 1) with
  | finished middle =>
      refine Or.inl ⟨middle, by simp [Outcome.halt?], fuel, ?_⟩
      rw [execute_block, ended]
  | halted halt after =>
      rw [ended, Outcome.next_halted] at ran
      subst ran
      refine Or.inr ⟨by simp [Outcome.halt?], fed, fuel, ?_⟩
      rw [execute_block, ended]

/-! Pieces that are optimized. -/

theorem Ends.optimized [DecidableEq Hole] {tree : Node Hole} {outcome : Outcome} {other : Machine}
    (ends : tree.Ends { faults } machine outcome) (sets : tree.SetsBytes)
    (matched : machine.Matches 4 other) (passes : Option Int) {cause : Option IoFault}
    (own : outcome.halt? = cause.map Halt.fault) :
    ∃ ending, (tree.runPasses passes).tree.Ends { faults } other ending ∧
      ending.halt? = cause.map Halt.fault ∧ outcome.machine.Matches 4 ending.machine := by
  obtain ⟨_, fuel, ran⟩ := ends
  have followed := execute_followedBy_runPasses { faults } fuel tree sets passes matched
  rw [ran] at followed
  obtain ⟨same, after⟩ := followed.matches_of_end own
  exact ⟨_, ⟨Outcome.halt?_ne_outOfFuel same, fuel, rfl⟩, same, after⟩

theorem Ends.optimized_finished [DecidableEq Hole] {tree : Node Hole} {after other : Machine}
    (finished : tree.Ends { faults } machine (.finished after)) (sets : tree.SetsBytes)
    (matched : machine.Matches 4 other) (passes : Option Int) :
    ∃ middle, (tree.runPasses passes).tree.Ends { faults } other (.finished middle) ∧
      after.Matches 4 middle := by
  have own : (Outcome.finished after).halt? = (none : Option IoFault).map Halt.fault := rfl
  obtain ⟨ending, went, same, matchedAfter⟩ := finished.optimized sets matched passes own
  cases ending with
  | finished middle => exact ⟨middle, went, matchedAfter⟩
  | halted => cases same

/-- Whether the first piece finishes, the optimizer does not change if the whole program ends. -/
theorem Ends.optimized_first_piece {nodes others : List Tree} {outcome : Outcome}
    (ends : (.block (nodes ++ others) : Tree).Ends { faults } machine outcome)
    (sets : EverywhereAll SetsByte (nodes ++ others)) (bytes : machine.tape.HoldsBytes)
    (passes : Option Int) {middle : Machine}
    (finished : ((.block nodes : Tree).runPasses passes).tree.Ends { faults } machine
      (.finished middle)) :
    ∃ after, (.block nodes : Tree).Ends { faults } machine (.finished after) ∧
      after.Matches 4 middle := by
  have matched : machine.Matches 4 machine := ⟨bytes, .refl _, rfl, by omega⟩
  have setsFirst : (.block nodes : Tree).SetsBytes :=
    ⟨trivial, ((everywhereAll_append SetsByte nodes others).mp sets).1⟩
  rcases ends.first_piece with ⟨after, front⟩ | ⟨halts, front⟩
  · obtain ⟨_, went, matchedAfter⟩ := front.optimized_finished setsFirst matched passes
    cases went.unique finished
    exact ⟨after, front, matchedAfter⟩
  · rcases front.halt_cases setsFirst bytes with ⟨cause, own⟩ | ⟨_, _, limited, _⟩
    · obtain ⟨ending, went, same, _⟩ := front.optimized setsFirst matched passes own
      rw [went.unique finished, ← own] at same
      exact absurd same.symm halts
    · cases limited

theorem Ends.optimized_pieces {nodes others : List Tree} {outcome : Outcome}
    (ends : (.block (nodes ++ others) : Tree).Ends { faults } machine outcome)
    (sets : EverywhereAll SetsByte (nodes ++ others)) (bytes : machine.tape.HoldsBytes)
    (passes passesSecond passesWhole : Option Int) {middle : Machine}
    (finished : ((.block nodes : Tree).runPasses passes).tree.Ends { faults } machine
      (.finished middle)) :
    ∃ ending together,
      ((.block others : Tree).runPasses passesSecond).tree.Ends { faults } middle ending ∧
      ((.block (nodes ++ others) : Tree).runPasses passesWhole).tree.Ends { faults } machine
        together ∧
      ending.halt? = together.halt? ∧ ending.machine.tape.Alike together.machine.tape ∧
      ending.machine.console = together.machine.console := by
  have matched : machine.Matches 4 machine := ⟨bytes, .refl _, rfl, by omega⟩
  have setsWhole : (.block (nodes ++ others) : Tree).SetsBytes := ⟨trivial, sets⟩
  have setsSecond : (.block others : Tree).SetsBytes :=
    ⟨trivial, ((everywhereAll_append SetsByte nodes others).mp sets).2⟩
  obtain ⟨after, front, matchedAfter⟩ := ends.optimized_first_piece sets bytes passes finished
  have back : (.block others : Tree).Ends { faults } after (outcome.changed (.later 1)) :=
    (ends_pieces_iff front _).mpr ⟨outcome, ends, rfl⟩
  rcases ends.halt_cases setsWhole bytes with ⟨cause, own⟩ | ⟨_, _, limited, _⟩
  · have ownBack : (outcome.changed (.later 1)).halt? = cause.map Halt.fault := by
      rw [Outcome.halt?_changed, own]
    obtain ⟨ending, went, same, left⟩ :=
      back.optimized setsSecond matchedAfter passesSecond ownBack
    obtain ⟨together, wentWhole, sameWhole, right⟩ :=
      ends.optimized setsWhole matched passesWhole own
    rw [Outcome.machine_changed] at left
    refine ⟨ending, together, went, wentWhole, same.trans sameWhole.symm, ?_, ?_⟩
    · exact left.alike.symm.trans right.alike
    · exact left.console.symm.trans right.console
  · cases limited

end Node

namespace Tree

open Command

/-- A balanced text and another one, run one after the other, are run as the text that joins them:
exactly but for one step as they are, and up to entries of zero and steps if all three are
optimized, provided that the run of the joined text ends. -/
theorem pieces_run_as_whole {first second : String} {other : Tree}
    (nested : NestedWithin 1000 (ofSource first)) (balanced : IsBalanced (ofSource first))
    (nestedSecond : NestedWithin 1000 (ofSource second))
    (parsed : parse false second = .ok other) :
    NestedWithin 1000 (ofSource (first ++ second)) ∧
    ∃ tree whole, parse false first = .ok tree ∧ parse false (first ++ second) = .ok whole ∧
      ∀ (faults : Faults) (machine : Machine),
        (∀ middle, tree.Ends { faults } machine (.finished middle) →
          ∀ ending, other.Ends { faults } middle ending ↔
            ∃ outcome, whole.Ends { faults } machine outcome ∧
              ending = outcome.changed (.later 1)) ∧
        ∀ outcome, whole.Ends { faults } machine outcome → machine.tape.HoldsBytes →
          ∀ passes passesSecond passesWhole,
            ((∃ after, tree.Ends { faults } machine (.finished after)) ↔
              ∃ middle, (tree.runPasses passes).tree.Ends { faults } machine (.finished middle)) ∧
            ∀ middle, (tree.runPasses passes).tree.Ends { faults } machine (.finished middle) →
              ∃ ending together,
                (other.runPasses passesSecond).tree.Ends { faults } middle ending ∧
                (whole.runPasses passesWhole).tree.Ends { faults } machine together ∧
                ending.halt? = together.halt? ∧
                ending.machine.tape.Alike together.machine.tape ∧
                ending.machine.console = together.machine.console := by
  constructor
  · rw [ofSource_append]
    exact nested.append balanced nestedSecond
  · obtain ⟨tree, accepted⟩ :=
      (parse_false_ok_iff (nested.mono (by decide))).mpr balanced.1
    obtain ⟨nodes, others, rfl, rfl, joined⟩ := parse_append balanced accepted parsed
    refine ⟨_, _, accepted, joined, fun faults machine => ⟨?_, ?_⟩⟩
    · intro middle finished ending
      exact Node.ends_pieces_iff finished ending
    · intro outcome ends bytes passes passesSecond passesWhole
      have sets := (setsByte_fromCommands.parse_everywhere joined).2
      refine ⟨⟨?_, ?_⟩, ?_⟩
      · rintro ⟨after, finished⟩
        have setsFirst := setsByte_fromCommands.parse_everywhere accepted
        have matched : machine.Matches 4 machine := ⟨bytes, .refl _, rfl, by omega⟩
        obtain ⟨middle, went, _⟩ := finished.optimized_finished setsFirst matched passes
        exact ⟨middle, went⟩
      · rintro ⟨middle, finished⟩
        obtain ⟨after, front, _⟩ := ends.optimized_first_piece sets bytes passes finished
        exact ⟨after, front⟩
      · intro middle finished
        exact ends.optimized_pieces sets bytes passes passesSecond passesWhole finished

/-- The second text leaves its loop open. -/
theorem countdown_runs_in_pieces :
    ∃ tree whole middle between outcome ending,
      parse false ",[.-]+" = .ok tree ∧ parse false (",[.-]+" ++ "[.-") = .ok whole ∧
      tree.Ends {} { console := { input := [2] } } (.finished middle) ∧
      (.block [.loop (.block [.print, .add 255])] : Tree).Ends {} middle
        (outcome.changed (.later 1)) ∧
      whole.Ends {} { console := { input := [2] } } outcome ∧
      (tree.runPasses (some 1)).tree.Ends {} { console := { input := [2] } } (.finished between) ∧
      ((.block [.loop (.block [.print, .add 255])] : Tree).runPasses none).tree.Ends {} between
        ending ∧
      outcome.machine.console.output = #[2, 1, 1] ∧
      ending.machine.console.output = #[2, 1, 1] := by
  have commands : ofSource ",[.-]+" =
      [.read, .openLoop, .print, .decrement, .closeLoop, .increment] := by decide
  have commandsSecond : ofSource "[.-" = [.openLoop, .print, .decrement] := by decide
  have nested : NestedWithin 1000 (ofSource ",[.-]+") := by
    rw [commands, NestedWithin]
    simp [forall_start_cons, depth]
  have balanced : IsBalanced (ofSource ",[.-]+") := by
    rw [commands, IsBalanced, ClosesOpened]
    simp [forall_start_cons, depth]
  have nestedSecond : NestedWithin 1000 (ofSource "[.-") := by
    rw [commandsSecond, NestedWithin]
    simp [forall_start_cons, depth]
  obtain ⟨_, tree, whole, accepted, joined, runs⟩ := pieces_run_as_whole nested balanced
    nestedSecond (show parse false "[.-" = .ok (.block [.loop (.block [.print, .add 255])]) from rfl)
  have parsed : parse false ",[.-]+" =
      .ok (.block [.read, .loop (.block [.print, .add 255]), .add 1]) := rfl
  have parsedWhole : parse false (",[.-]+" ++ "[.-") = .ok (.block [.read,
      .loop (.block [.print, .add 255]), .add 1, .loop (.block [.print, .add 255])]) := rfl
  rw [parsed] at accepted
  rw [parsedWhole] at joined
  cases accepted
  cases joined
  let start : Machine := { console := { input := [2] } }
  let all : Tree := .block [.read, .loop (.block [.print, .add 255]), .add 1,
    .loop (.block [.print, .add 255])]
  have stops : (all.execute {} 3 start).halt? = none := by decide +kernel
  have output : (all.execute {} 3 start).machine.console.output = #[2, 1, 1] := by decide +kernel
  have allEnds : all.Ends {} start (all.execute {} 3 start) := ⟨by rw [stops]; simp, 3, rfl⟩
  have stopsOptimized : ((all.runPasses none).tree.execute {} 3 start).halt? = none := by
    decide +kernel
  have outputOptimized :
      ((all.runPasses none).tree.execute {} 3 start).machine.console.output = #[2, 1, 1] := by
    decide +kernel
  obtain ⟨exactly, optimized⟩ := runs {} start
  obtain ⟨sameFirst, sameSecond⟩ := optimized _ allEnds .blank (some 1) none none
  obtain ⟨middle, front⟩ : ∃ middle, (.block [.read, .loop (.block [.print, .add 255]), .add 1] :
      Tree).Ends {} start (.finished middle) :=
    allEnds.first_piece.resolve_right fun halts => halts.1 stops
  have back := (exactly middle front _).mpr ⟨_, allEnds, rfl⟩
  obtain ⟨between, frontOptimized⟩ := sameFirst.mp ⟨middle, front⟩
  obtain ⟨ending, together, backOptimized, wholeOptimized, _, _, console⟩ :=
    sameSecond _ frontOptimized
  have same := wholeOptimized.unique ⟨by rw [stopsOptimized]; simp, 3, rfl⟩
  refine ⟨_, all, middle, between, _, ending, parsed, parsedWhole, front, back, allEnds,
    frontOptimized, backOptimized, output, ?_⟩
  rw [console, same, outputOptimized]

end Tree

end TapeTree
