import TapeTree.Proofs.Machine.Runs

/-! Changes of a machine that its steps do not notice. They can as well be made after a run as
before it. Without a step limit the number of steps counted so far is of this kind. -/

namespace TapeTree

def Outcome.changed (change : Machine → Machine) : Outcome → Outcome
  | .finished machine => .finished (change machine)
  | .halted halt machine => .halted halt (change machine)

namespace Outcome

variable {change : Machine → Machine}

theorem halt?_changed (outcome : Outcome) : (outcome.changed change).halt? = outcome.halt? := by
  cases outcome <;> rfl

theorem machine_changed (outcome : Outcome) :
    (outcome.changed change).machine = change outcome.machine := by
  cases outcome <;> rfl

theorem next_changed {outcome : Outcome} {rest : Machine → Outcome}
    (onward : ∀ machine, rest (change machine) = (rest machine).changed change) :
    (outcome.changed change).next rest = (outcome.next rest).changed change := by
  cases outcome with
  | finished machine => exact onward machine
  | halted => rfl

end Outcome

/-- Neither counting a step nor looking at the current cell notices the change. -/
structure Unnoticed (limit : Option Int) (change : Machine → Machine) : Prop where
  tick : ∀ machine, (change machine).tick limit = (machine.tick limit).changed change
  current : ∀ machine, (change machine).tape.current = machine.tape.current

theorem unnoticed_of_steps (change : Machine → Machine)
    (steps : ∀ machine, (change machine).steps = machine.steps)
    (counted : ∀ (machine : Machine) (steps : Nat),
      { change machine with steps } = change { machine with steps })
    (current : ∀ machine, (change machine).tape.current = machine.tape.current)
    (limit : Option Int) : Unnoticed limit change where
  tick := by
    intro machine
    simp only [Machine.tick, steps, counted]
    cases limit with
    | none => rfl
    | some most =>
        simp only
        split <;> rfl
  current := current

theorem Unnoticed.rounds {limit : Option Int} {change : Machine → Machine}
    (unnoticed : Unnoticed limit change) {body : Machine → Outcome}
    (round : ∀ machine, body (change machine) = (body machine).changed change) (fuel : Nat)
    (machine : Machine) :
    (change machine).rounds limit body fuel = (machine.rounds limit body fuel).changed change := by
  have current := unnoticed.current
  induction fuel generalizing machine with
  | zero =>
      simp only [Machine.rounds, current]
      split <;> rfl
  | succ fuel ih =>
      simp only [Machine.rounds, current]
      split
      · rfl
      · rw [unnoticed.tick, Outcome.next_changed round, Outcome.next_changed ih]

namespace Node

variable {Hole : Type} {setup : Setup} {change : Machine → Machine}

mutual

theorem effect_changed (unnoticed : Unnoticed setup.stepLimit change) (fuel : Nat)
    (tree : Node Hole)
    (each : tree.Everywhere fun node => node.IsInstruction → ∀ machine,
      node.effect setup fuel (change machine) = (node.effect setup fuel machine).changed change)
    (machine : Machine) :
    tree.effect setup fuel (change machine) = (tree.effect setup fuel machine).changed change := by
  match tree with
  | .block children => exact executeAll_changed unnoticed fuel children each.2 machine
  | .loop body =>
      apply unnoticed.rounds
      intro start
      rw [execute_eq, execute_eq, unnoticed.tick]
      exact Outcome.next_changed (effect_changed unnoticed fuel body each.2)
  | .move _ | .add _ | .set _ | .print | .read | .addTo _ | .hole _ =>
      exact each.here trivial machine

theorem executeAll_changed (unnoticed : Unnoticed setup.stepLimit change) (fuel : Nat)
    (nodes : List (Node Hole))
    (each : EverywhereAll (fun node => node.IsInstruction → ∀ machine,
      node.effect setup fuel (change machine) =
        (node.effect setup fuel machine).changed change) nodes) (machine : Machine) :
    executeAll setup fuel nodes (change machine) =
      (executeAll setup fuel nodes machine).changed change := by
  match nodes with
  | [] =>
      rw [executeAll_nil, executeAll_nil]
      rfl
  | node :: rest =>
      have onward := executeAll_changed unnoticed fuel rest each.2
      rw [executeAll_cons, executeAll_cons, execute_eq, execute_eq, unnoticed.tick,
        Outcome.next_changed (effect_changed unnoticed fuel node each.1),
        Outcome.next_changed onward]

end

theorem execute_changed (unnoticed : Unnoticed setup.stepLimit change) (fuel : Nat)
    (tree : Node Hole)
    (each : tree.Everywhere fun node => node.IsInstruction → ∀ machine,
      node.effect setup fuel (change machine) = (node.effect setup fuel machine).changed change)
    (machine : Machine) :
    tree.execute setup fuel (change machine) =
      (tree.execute setup fuel machine).changed change := by
  rw [execute_eq, execute_eq, unnoticed.tick]
  exact Outcome.next_changed (effect_changed unnoticed fuel tree each)

theorem ends_changed_iff {tree : Node Hole} {machine : Machine}
    (same : ∀ fuel, tree.execute setup fuel (change machine) =
      (tree.execute setup fuel machine).changed change) (ending : Outcome) :
    tree.Ends setup (change machine) ending ↔
      ∃ outcome, tree.Ends setup machine outcome ∧ ending = outcome.changed change := by
  constructor
  · rintro ⟨fed, fuel, rfl⟩
    rw [same, Outcome.halt?_changed] at fed
    exact ⟨_, ⟨fed, fuel, rfl⟩, same fuel⟩
  · rintro ⟨_, ⟨fed, fuel, rfl⟩, rfl⟩
    rw [← Outcome.halt?_changed] at fed
    exact ⟨fed, fuel, same fuel⟩

end Node

structure ChangesConsole (alter : Console → Console) (change : Machine → Machine) : Prop where
  console : ∀ machine, (change machine).console = alter machine.console
  called : ∀ (machine : Machine) (console : Console),
    { change machine with console := alter console } = change { machine with console }

namespace ChangesConsole

variable {alter : Console → Console} {change : Machine → Machine} {faults : Faults}
  {machine : Machine}

theorem write (changes : ChangesConsole alter change)
    (calls : ∀ byte, (alter machine.console).write faults byte =
      ((machine.console.write faults byte).1, alter (machine.console.write faults byte).2))
    (value : Int) :
    (change machine).write faults value = (machine.write faults value).changed change := by
  rw [← changes.console] at calls
  rcases machine.write_cases faults value with
    ⟨byte, console, isByte, called, written⟩ | ⟨byte, cause, console, isByte, called, written⟩ |
    ⟨noByte, written⟩
  · have also := calls byte
    rw [called] at also
    rw [written, Machine.write_done isByte also, changes.called]
    rfl
  · have also := calls byte
    rw [called] at also
    rw [written, Machine.write_failed isByte also, changes.called]
    rfl
  · rw [written, Machine.write_notByte noByte]
    rfl

theorem read (changes : ChangesConsole alter change)
    (call : (alter machine.console).read faults =
      ((machine.console.read faults).1, alter (machine.console.read faults).2))
    {use : Int → Machine → Outcome}
    (uses : ∀ value machine, use value (change machine) = (use value machine).changed change) :
    (change machine).read faults use = (machine.read faults use).changed change := by
  rw [← changes.console] at call
  rcases machine.read_cases faults use with
    ⟨byte, console, called, taken⟩ | ⟨cause, console, called, taken⟩
  · rw [called] at call
    rw [taken, Machine.read_done call, changes.called, uses]
  · rw [called] at call
    rw [taken, Machine.read_failed call, changes.called]
    rfl

end ChangesConsole

/-! Steps counted before a run. -/

namespace Machine

def later (count : Nat) (machine : Machine) : Machine :=
  { machine with steps := machine.steps + count }

theorem later_unnoticed (count : Nat) : Unnoticed none (later count) where
  tick := by
    intro machine
    simp only [tick, later, Outcome.changed, Nat.add_right_comm]
  current := fun _ => rfl

theorem later_changesConsole (count : Nat) : ChangesConsole id (later count) where
  console := fun _ => rfl
  called := fun _ _ => rfl

theorem later_steps (machine : Machine) :
    { machine with steps := 0 }.later machine.steps = machine := by
  simp [later]

end Machine

namespace Node

variable {Hole : Type}

theorem effect_later (faults : Faults) (fuel : Nat) {node : Node Hole}
    (instruction : node.IsInstruction) (count : Nat) (start : Machine) :
    node.effect { faults } fuel (start.later count) =
      (node.effect { faults } fuel start).changed (Machine.later count) := by
  cases node with
  | block => cases instruction
  | loop => cases instruction
  | move | add | set | addTo | hole => rfl
  | print =>
      exact (Machine.later_changesConsole count).write (fun _ => rfl) start.tape.current
  | read =>
      rw [effect, effect]
      exact (Machine.later_changesConsole count).read rfl (fun _ _ => rfl)

theorem execute_later (faults : Faults) (fuel : Nat) (tree : Node Hole) (count : Nat)
    (machine : Machine) :
    tree.execute { faults } fuel (machine.later count) =
      (tree.execute { faults } fuel machine).changed (Machine.later count) := by
  apply execute_changed (Machine.later_unnoticed count)
  apply everywhere_of_forall
  intro node instruction start
  exact effect_later faults fuel instruction count start

theorem executeAll_later (faults : Faults) (fuel : Nat) (nodes : List (Node Hole)) (count : Nat)
    (machine : Machine) :
    executeAll { faults } fuel nodes (machine.later count) =
      (executeAll { faults } fuel nodes machine).changed (Machine.later count) := by
  apply executeAll_changed (Machine.later_unnoticed count)
  apply everywhereAll_of_forall
  intro node instruction start
  exact effect_later faults fuel instruction count start

end Node

end TapeTree
