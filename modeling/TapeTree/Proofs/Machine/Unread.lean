import TapeTree.Proofs.Machine.Failures
import TapeTree.Proofs.Machine.Unnoticed

/-! Input that a run does not read. A run on the front part of an input goes as the run on all of
it, until it asks for more than there is. -/

namespace TapeTree

/-! Runs of a machine and of the same machine with a change, up to where the first one is given up. -/

theorem Unnoticed.coupling {setup : Setup} {change : Machine → Machine}
    (unnoticed : Unnoticed setup.stepLimit change) {given : Halt → Prop}
    (starved : given .outOfFuel) :
    Coupling setup setup fun outcome ending =>
      Node.SameUnless given (outcome.changed change) ending where
  tick := by
    intro machine other together
    cases together.of_finished
    exact Or.inr (unnoticed.tick machine).symm
  current := by
    intro machine other together
    cases together.of_finished
    rw [unnoticed.current]
  next := by
    intro outcome ending rest others together onward later
    cases outcome with
    | finished machine =>
        cases together.of_finished
        exact onward machine (change machine) (Or.inr rfl)
    | halted halt machine => exact together.next_of_halted later
  starved := by
    intro machine other ending together later
    cases together.of_finished
    exact Or.inl ⟨_, _, rfl, starved, later⟩

/-! More input. -/

namespace Console

def extended (more : List UInt8) (console : Console) : Console :=
  { console with input := console.input ++ more }

variable (more : List UInt8) (faults : Faults) (console : Console)

theorem write_extended (byte : UInt8) :
    (console.extended more).write faults byte =
      ((console.write faults byte).1, (console.write faults byte).2.extended more) := by
  simp only [write, flush, extended]
  split
  · rfl
  · split <;> rfl

theorem read_extended :
    (console.extended more).read faults =
        ((console.read faults).1, (console.read faults).2.extended more) ∨
      console.read faults = (.error .endOfInput, { console with reads := console.reads + 1 }) := by
  simp only [read, extended]
  split
  · exact Or.inl rfl
  · cases console.input with
    | nil => exact Or.inr rfl
    | cons byte rest => exact Or.inl rfl

end Console

namespace Machine

def extended (more : List UInt8) (machine : Machine) : Machine :=
  { machine with console := machine.console.extended more }

theorem extended_unnoticed (more : List UInt8) (limit : Option Int) :
    Unnoticed limit (extended more) :=
  unnoticed_of_steps (extended more) (fun _ => rfl) (fun _ _ => rfl) (fun _ => rfl) limit

theorem extended_changesConsole (more : List UInt8) :
    ChangesConsole (Console.extended more) (extended more) where
  console := fun _ => rfl
  called := fun _ _ => rfl

end Machine

def Halt.WantsMore (halt : Halt) : Prop :=
  halt = .outOfFuel ∨ halt = .fault .endOfInput

namespace Node

variable {Hole : Type} (setup : Setup) (fuel : Nat) (more : List UInt8)

theorem read_effect_extended (machine : Machine) :
    SameUnless Halt.WantsMore
      (((.read : Node Hole).effect setup fuel machine).changed (Machine.extended more))
      ((.read : Node Hole).effect setup fuel (machine.extended more)) := by
  rcases machine.console.read_extended more setup.faults with same | ended
  · rw [effect, effect]
    exact Or.inr ((Machine.extended_changesConsole more).read same fun _ _ => rfl).symm
  · -- here the runs part, with all there was read in both of them
    have ahead := effect_precedes setup fuel (.read : Node Hole) (machine.extended more)
    have failed : (.read : Node Hole).effect setup fuel machine = _ :=
      Machine.read_failed ended fun byte start => .finished (start.setCurrent byte)
    rw [failed]
    exact Or.inl ⟨_, _, rfl, Or.inr rfl, ahead.steps, ahead.output, ahead.input⟩

theorem effect_extended {node : Node Hole} (instruction : node.IsInstruction)
    (machine : Machine) :
    SameUnless Halt.WantsMore ((node.effect setup fuel machine).changed (Machine.extended more))
      (node.effect setup fuel (machine.extended more)) := by
  cases node with
  | block => cases instruction
  | loop => cases instruction
  | move | add | set | addTo | hole => exact Or.inr rfl
  | print =>
      have calls := machine.console.write_extended more setup.faults
      exact Or.inr ((Machine.extended_changesConsole more).write calls machine.tape.current).symm
  | read => exact read_effect_extended setup fuel more machine

theorem execute_extended (tree : Node Hole) (machine : Machine) :
    SameUnless Halt.WantsMore ((tree.execute setup fuel machine).changed (Machine.extended more))
      (tree.execute setup fuel (machine.extended more)) := by
  have unnoticed := Machine.extended_unnoticed more setup.stepLimit
  refine execute_coupled (unnoticed.coupling (Or.inl rfl)) (Nat.le_refl fuel) tree ?_ (Or.inr rfl)
  apply everywhere_of_forall
  intro node instruction start other together
  cases together.of_finished
  exact effect_extended setup fuel more instruction start

end Node

/-- Input that a run leaves unread has no influence on it: with more of it behind, the run ends in
the same way and with the same machine, but for what is left to read. A run that asks for more than
there is has read all of it, and put out a first part of what it puts out when there is more. -/
theorem unread_input_does_not_matter {Hole : Type} (setup : Setup) (tree : Node Hole)
    (machine : Machine) (more : List UInt8) :
    (∀ outcome, tree.Ends setup machine outcome → outcome.halt? ≠ some (.fault .endOfInput) →
      tree.Ends setup (machine.extended more) (outcome.changed (Machine.extended more))) ∧
    ∀ after ending, tree.Ends setup machine (.halted (.fault .endOfInput) after) →
      tree.Ends setup (machine.extended more) ending →
      after.console.output.toList <+: ending.machine.console.output.toList ∧
        ending.machine.console.input <:+ more := by
  constructor
  · rintro _ ⟨fed, fuel, rfl⟩ enough
    rcases tree.execute_extended setup fuel more machine with ⟨halt, _, ended, wants, _⟩ | same
    · have halted := congrArg Outcome.halt? ended
      rw [Outcome.halt?_changed] at halted
      rcases wants with rfl | rfl
      · exact absurd halted fed
      · exact absurd halted enough
    · rw [← Outcome.halt?_changed] at fed
      exact ⟨fed, fuel, same.symm⟩
  · intro after ending ends also
    obtain ⟨fuel, ran, went⟩ := ends.together also
    have together := tree.execute_extended setup fuel more machine
    rw [ran, went] at together
    have wentOn : (after.extended more).Precedes ending.machine := by
      rcases together with ⟨_, _, ended, _, wentOn⟩ | same
      · cases ended
        exact wentOn
      · cases same
        exact .refl _
    have left : ending.machine.console.input <:+ after.console.input ++ more := wentOn.input
    obtain ⟨_, _, fails⟩ := ends.cut_before_failure
    rw [fails.call.input_of_endOfInput] at left
    exact ⟨wentOn.output, left⟩

/-- Bytes are copied up to the first zero. -/
theorem unread_input_of_echo :
    (∃ outcome, (.block [.read, .loop (.block [.print, .read])] : Tree).Ends {}
        { console := { input := [7, 0] } } outcome ∧
      outcome.halt? = none ∧ outcome.machine.console.output = #[7] ∧
      (.block [.read, .loop (.block [.print, .read])] : Tree).Ends {}
        { console := { input := [7, 0, 9] } } (outcome.changed (Machine.extended [9]))) ∧
    ∃ after ending, (.block [.read, .loop (.block [.print, .read])] : Tree).Ends {}
        { console := { input := [7] } } (.halted (.fault .endOfInput) after) ∧
      (.block [.read, .loop (.block [.print, .read])] : Tree).Ends {}
        { console := { input := [7, 9, 0, 5] } } ending ∧
      ending.machine.console.output = #[7, 9] ∧
      after.console.output.toList <+: ending.machine.console.output.toList ∧
      ending.machine.console.input <:+ [9, 0, 5] := by
  let echo : Tree := .block [.read, .loop (.block [.print, .read])]
  let start (input : List UInt8) : Machine := { console := { input } }
  constructor
  · have finished : (echo.execute {} 2 (start [7, 0])).halt? = none := by decide +kernel
    have ends : echo.Ends {} (start [7, 0]) (echo.execute {} 2 (start [7, 0])) :=
      ⟨by rw [finished]; simp, 2, rfl⟩
    have all := (unread_input_does_not_matter {} echo (start [7, 0]) [9]).1
    exact ⟨_, ends, finished, by decide +kernel, all _ ends (by rw [finished]; simp)⟩
  · have failed : (echo.execute {} 2 (start [7])).halt? = some (.fault .endOfInput) := by
      decide +kernel
    have finished : (echo.execute {} 3 (start [7, 9, 0, 5])).halt? = none := by decide +kernel
    have ends : echo.Ends {} (start [7])
        (.halted (.fault .endOfInput) (echo.execute {} 2 (start [7])).machine) :=
      ⟨by simp [Outcome.halt?], 2, Outcome.eq_halted failed⟩
    have also : echo.Ends {} (start [7, 9, 0, 5]) (echo.execute {} 3 (start [7, 9, 0, 5])) :=
      ⟨by rw [finished]; simp, 3, rfl⟩
    have first := (unread_input_does_not_matter {} echo (start [7]) [9, 0, 5]).2 _ _ ends also
    exact ⟨_, _, ends, also, by decide +kernel, first⟩

end TapeTree
