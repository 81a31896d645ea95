import TapeTree.Machine.Flat
import TapeTree.Proofs.Machine.Runs
import TapeTree.Proofs.Machine.Tape
import TapeTree.Tree.Build

/-! Steps of the flat machine: what one of them does, beside the machine that runs trees, and
how many of them make up a run. -/

namespace TapeTree

theorem byte?_toNat (byte : UInt8) : byte? byte.toNat = some byte := by
  have small := byte.toNat_lt
  simp only [byte?]
  rw [if_pos (by omega)]
  simp

namespace FlatMachine

/-- The two machines cannot be told apart: the same cells, pointer, input, output and calls. -/
structure Shows (flat : FlatMachine) (machine : Machine) : Prop where
  pointer : flat.pointer = machine.tape.pointer
  cells : ∀ address, machine.tape.cellAt address = (flat.cells address).toNat
  console : flat.console = machine.console

namespace Shows

variable {flat : FlatMachine} {machine : Machine}

theorem current (shown : flat.Shows machine) :
    machine.tape.current = flat.current.toNat := by
  rw [Tape.current, shown.cells, FlatMachine.current, shown.pointer]

theorem current_eq_zero (shown : flat.Shows machine) :
    machine.tape.current = 0 ↔ flat.current = 0 := by
  rw [shown.current, ← UInt8.toNat_inj]
  simp

theorem move (shown : flat.Shows machine) {pointer distance : Int}
    (same : pointer = flat.pointer + distance) :
    { flat with pointer }.Shows (machine.move distance) where
  pointer := by
    rw [same, shown.pointer]
    rfl
  cells := shown.cells
  console := shown.console

theorem setCurrent (shown : flat.Shows machine) {byte : UInt8} {value : Int}
    (same : value = byte.toNat) : (flat.setCurrent byte).Shows (machine.setCurrent value) where
  pointer := shown.pointer
  cells := by
    intro address
    simp only [FlatMachine.setCurrent, Machine.setCurrent, Tape.cellAt_setCurrent, shown.pointer]
    split
    · exact same
    · exact shown.cells address
  console := shown.console

theorem called (shown : flat.Shows machine) (console : Console) :
    { flat with console }.Shows { machine with console } :=
  ⟨shown.pointer, shown.cells, rfl⟩

theorem counted (shown : flat.Shows machine) (steps : Nat) :
    flat.Shows { machine with steps } :=
  ⟨shown.pointer, shown.cells, shown.console⟩

theorem placed (shown : flat.Shows machine) (position : Nat) :
    { flat with position }.Shows machine :=
  ⟨shown.pointer, shown.cells, shown.console⟩

end Shows

/-! Single steps. -/

variable {faults : Faults} {commands : List Command} {flat : FlatMachine}

theorem step_instruction (setup : Setup) (fuel : Nat) {command : Command} {node : Tree}
    {machine : Machine} (here : commands[flat.position]? = some command)
    (found : Tree.instruction? command = some node) (shown : flat.Shows machine) :
    (∃ later after, flat.step setup.faults commands = .next later ∧
      later.position = flat.position + 1 ∧ node.effect setup fuel machine = .finished after ∧
      later.Shows after ∧ after.steps = machine.steps) ∨
    (∃ cause later after, flat.step setup.faults commands = .failed cause later ∧
      node.effect setup fuel machine = .halted (.fault cause) after ∧ later.Shows after) := by
  rw [step, here]
  cases command with
  | openLoop | closeLoop => cases found
  | right | left =>
      cases found
      exact Or.inl ⟨_, _, rfl, rfl, rfl, (shown.move rfl).placed _, rfl⟩
  | increment =>
      cases found
      refine Or.inl ⟨_, _, rfl, rfl, rfl, (shown.setCurrent ?_).placed _, rfl⟩
      rw [shown.current, UInt8.toNat_add]
      simp [cellSize]
  | decrement =>
      cases found
      refine Or.inl ⟨_, _, rfl, rfl, rfl, (shown.setCurrent ?_).placed _, rfl⟩
      have small := flat.current.toNat_lt
      rw [shown.current, UInt8.toNat_sub]
      simp [cellSize]
      omega
  | print =>
      cases found
      have isByte := byte?_toNat flat.current
      rw [← shown.current] at isByte
      cases called : flat.console.write setup.faults flat.current with
      | mk result console =>
          have calls := called
          rw [shown.console] at calls
          cases result with
          | ok =>
              exact Or.inl ⟨_, _, rfl, rfl, Machine.write_done isByte calls,
                (shown.called console).placed _, rfl⟩
          | error cause =>
              exact Or.inr ⟨cause, _, _, rfl, Machine.write_failed isByte calls,
                shown.called console⟩
  | read =>
      cases found
      let use (byte : Int) (machine : Machine) : Outcome := .finished (machine.setCurrent byte)
      cases called : flat.console.read setup.faults with
      | mk result console =>
          have calls := called
          rw [shown.console] at calls
          cases result with
          | ok byte =>
              exact Or.inl ⟨_, _, rfl, rfl, Machine.read_done calls use,
                ((shown.called console).setCurrent rfl).placed _, rfl⟩
          | error cause =>
              exact Or.inr ⟨cause, _, _, rfl, Machine.read_failed calls use, shown.called console⟩

theorem step_enter (here : commands[flat.position]? = some .openLoop) (current : flat.current ≠ 0) :
    flat.step faults commands = .next flat.advance := by
  simp [step, here, current]

theorem step_skip {partner : Nat} (here : commands[flat.position]? = some .openLoop)
    (current : flat.current = 0)
    (found : Command.partnerAhead? commands flat.position = some partner) :
    flat.step faults commands = .next { flat with position := partner + 1 } := by
  simp [step, here, current, found, jump]

theorem step_back {partner : Nat} (here : commands[flat.position]? = some .closeLoop)
    (found : Command.partnerBehind? commands flat.position = some partner) :
    flat.step faults commands = .next { flat with position := partner } := by
  simp [step, here, found, jump]

/-! Sequences of steps. -/

def Reaches (faults : Faults) (commands : List Command) (flat : FlatMachine) (count : Nat)
    (later : FlatMachine) : Prop :=
  ∀ more, flat.run? faults commands (count + more) = later.run? faults commands more

namespace Reaches

variable {middle later : FlatMachine} {count further : Nat}

theorem refl (faults : Faults) (commands : List Command) (flat : FlatMachine) :
    Reaches faults commands flat 0 flat := by
  intro more
  rw [Nat.zero_add]

theorem trans (first : Reaches faults commands flat count middle)
    (second : Reaches faults commands middle further later) :
    Reaches faults commands flat (count + further) later := by
  intro more
  rw [Nat.add_assoc, first, second]

theorem step (stepped : flat.step faults commands = .next later) :
    Reaches faults commands flat 1 later := by
  intro more
  rw [Nat.add_comm, run?, stepped]

end Reaches

theorem run?_more {count : Nat} {ending : FlatEnd}
    (ended : flat.run? faults commands count = some ending) (more : Nat) :
    flat.run? faults commands (count + more) = some ending := by
  induction count generalizing flat with
  | zero => simp [run?] at ended
  | succ count ih =>
      rw [Nat.add_right_comm, run?]
      rw [run?] at ended
      split
      · rename_i later stepped
        simp only [stepped] at ended
        exact ih ended
      · rename_i stepped
        simpa only [stepped] using ended
      · rename_i stepped
        simpa only [stepped] using ended

theorem run?_unique {count another : Nat} {ending other : FlatEnd}
    (ended : flat.run? faults commands count = some ending)
    (also : flat.run? faults commands another = some other) : ending = other := by
  have first := run?_more ended another
  have second := run?_more also count
  rw [Nat.add_comm, second] at first
  cases first
  rfl

theorem Reaches.running {later : FlatMachine} {count earlier : Nat}
    (reaches : Reaches faults commands flat count later) (before : earlier ≤ count) :
    flat.run? faults commands earlier = none := by
  cases ended : flat.run? faults commands earlier with
  | none => rfl
  | some ending =>
      have still := run?_more ended (count - earlier)
      have reached := reaches 0
      rw [Nat.add_zero, run?] at reached
      rw [show earlier + (count - earlier) = count by omega, reached] at still
      cases still

end FlatMachine

end TapeTree
