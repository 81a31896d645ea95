import TapeTree.Machine.Ends
import TapeTree.Proofs.Tree.Everywhere

/-! Runs of trees: what is true of every step is true of the run. In particular steps and output
only grow, and the input is only ever taken from its front. -/

namespace TapeTree

namespace Outcome

@[simp] theorem next_finished (machine : Machine) (rest : Machine → Outcome) :
    (finished machine).next rest = rest machine := rfl

@[simp] theorem next_halted (halt : Halt) (machine : Machine) (rest : Machine → Outcome) :
    (halted halt machine).next rest = .halted halt machine := rfl

@[simp] theorem machine_finished (after : Machine) : (finished after).machine = after := rfl

@[simp] theorem machine_halted (halt : Halt) (after : Machine) :
    (halted halt after).machine = after := rfl

theorem next_assoc (first : Outcome) (second third : Machine → Outcome) :
    (first.next second).next third = first.next fun machine => (second machine).next third := by
  cases first <;> rfl

@[simp] theorem next_finish (first : Outcome) : first.next finished = first := by
  cases first <;> rfl

theorem eq_halted {outcome : Outcome} {halt : Halt} (halted : outcome.halt? = some halt) :
    outcome = .halted halt outcome.machine := by
  cases outcome with
  | finished machine => cases halted
  | halted reason machine =>
      cases halted
      rfl

theorem next_eq_finished_iff (first : Outcome) (rest : Machine → Outcome) (after : Machine) :
    first.next rest = .finished after ↔
      ∃ middle, first = .finished middle ∧ rest middle = .finished after := by
  cases first <;> simp

end Outcome

namespace Machine

def Allowed (limit : Option Int) (machine : Machine) : Prop :=
  ∀ most, limit = some most → (machine.steps : Int) ≤ most

theorem tick_cases (limit : Option Int) (machine : Machine) :
    (machine.tick limit = .finished { machine with steps := machine.steps + 1 } ∧
      Allowed limit { machine with steps := machine.steps + 1 }) ∨
    ∃ most, limit = some most ∧ most < machine.steps + 1 ∧
      machine.tick limit = .halted (.stepLimit most (machine.steps + 1))
        { machine with steps := machine.steps + 1 } := by
  cases limit with
  | none => exact Or.inl ⟨rfl, by simp [Allowed]⟩
  | some most =>
      by_cases exceeded : most < machine.steps + 1
      · exact Or.inr ⟨most, rfl, exceeded, by simp [tick, exceeded]⟩
      · refine Or.inl ⟨by simp [tick, exceeded], ?_⟩
        intro bound same
        cases same
        simpa using exceeded

theorem machine_tick (limit : Option Int) (machine : Machine) :
    (machine.tick limit).machine = { machine with steps := machine.steps + 1 } := by
  rcases machine.tick_cases limit with ⟨counted, _⟩ | ⟨_, _, _, exceeded⟩
  · rw [counted, Outcome.machine_finished]
  · rw [exceeded, Outcome.machine_halted]

/-- Counters and output of the second machine go on where those of the first one were, and its
input is what is left of that of the first. -/
structure Precedes (earlier later : Machine) : Prop where
  steps : earlier.steps ≤ later.steps
  output : earlier.console.output.toList <+: later.console.output.toList
  input : later.console.input <:+ earlier.console.input

namespace Precedes

theorem refl (machine : Machine) : Precedes machine machine :=
  ⟨Nat.le_refl _, List.prefix_refl _, List.suffix_refl _⟩

theorem trans {first second third : Machine} (left : Precedes first second)
    (right : Precedes second third) : Precedes first third :=
  ⟨Nat.le_trans left.steps right.steps, left.output.trans right.output,
    right.input.trans left.input⟩

end Precedes

theorem tick_precedes (limit : Option Int) (machine : Machine) :
    Precedes machine (machine.tick limit).machine := by
  rw [machine_tick]
  exact ⟨Nat.le_succ _, List.prefix_refl _, List.suffix_refl _⟩

end Machine

namespace Console

theorem flush_made {faults : Faults} {result : Except IoFault Unit} {before after : Console}
    (made : before.flush faults = (result, after)) :
    after.output = before.output ∧ after.input = before.input := by
  unfold flush at made
  split at made
  · cases made
    exact ⟨rfl, rfl⟩
  · cases made
    exact ⟨rfl, rfl⟩

inductive Called (faults : Faults) (before after : Console) : Prop
  | write {byte : UInt8} {result : Except IoFault Unit}
      (made : before.write faults byte = (result, after))
  | read {result : Except IoFault UInt8} (made : before.read faults = (result, after))

namespace Called

variable {faults : Faults} {before after : Console}

theorem carries (called : before.Called faults after) :
    (after.output = before.output ∧ after.input = before.input) ∨
      (∃ byte, after.output = before.output.push byte ∧ after.input = before.input) ∨
      ∃ byte, after.output = before.output ∧ before.input = byte :: after.input := by
  cases called with
  | @write byte _ made =>
      unfold Console.write at made
      split at made
      · cases made
        exact Or.inl ⟨rfl, rfl⟩
      · exact Or.inr (Or.inl ⟨byte, flush_made made⟩)
  | read made =>
      unfold Console.read at made
      split at made
      · cases made
        exact Or.inl ⟨rfl, rfl⟩
      · split at made
        · cases made
          exact Or.inl ⟨rfl, rfl⟩
        · rename_i byte rest first
          cases made
          exact Or.inr (Or.inr ⟨byte, rfl, first⟩)

theorem output (called : before.Called faults after) :
    before.output.toList <+: after.output.toList := by
  rcases called.carries with ⟨same, _⟩ | ⟨byte, written, _⟩ | ⟨_, same, _⟩
  · simp only [same, List.prefix_rfl]
  · rw [written, Array.toList_push]
    exact List.prefix_append _ _
  · simp only [same, List.prefix_rfl]

theorem input (called : before.Called faults after) : after.input <:+ before.input := by
  rcases called.carries with ⟨_, same⟩ | ⟨_, _, same⟩ | ⟨byte, _, taken⟩
  · simp only [same, List.suffix_rfl]
  · simp only [same, List.suffix_rfl]
  · rw [taken]
    exact List.suffix_cons byte _

end Called

end Console

namespace Machine

theorem write_done {faults : Faults} {value : Int} {byte : UInt8} {console : Console}
    {machine : Machine} (isByte : byte? value = some byte)
    (called : machine.console.write faults byte = (.ok (), console)) :
    machine.write faults value = .finished { machine with console } := by
  simp [write, isByte, called]

theorem write_failed {faults : Faults} {value : Int} {byte : UInt8} {cause : IoFault}
    {console : Console} {machine : Machine} (isByte : byte? value = some byte)
    (called : machine.console.write faults byte = (.error cause, console)) :
    machine.write faults value = .halted (.fault cause) { machine with console } := by
  simp [write, isByte, called]

theorem write_notByte {value : Int} (noByte : byte? value = none) (faults : Faults)
    (machine : Machine) : machine.write faults value = .halted (.notByte value) machine := by
  simp [write, noByte]

theorem write_cases (faults : Faults) (value : Int) (machine : Machine) :
    (∃ byte console, byte? value = some byte ∧
      machine.console.write faults byte = (.ok (), console) ∧
      machine.write faults value = .finished { machine with console }) ∨
    (∃ byte cause console, byte? value = some byte ∧
      machine.console.write faults byte = (.error cause, console) ∧
      machine.write faults value = .halted (.fault cause) { machine with console }) ∨
    (byte? value = none ∧ machine.write faults value = .halted (.notByte value) machine) := by
  cases isByte : byte? value with
  | none => exact Or.inr (Or.inr ⟨rfl, write_notByte isByte faults machine⟩)
  | some byte =>
      rcases called : machine.console.write faults byte with ⟨cause | _, console⟩
      · exact Or.inr (Or.inl ⟨byte, cause, console, rfl, called, write_failed isByte called⟩)
      · exact Or.inl ⟨byte, console, rfl, called, write_done isByte called⟩

theorem read_done {faults : Faults} {byte : UInt8} {console : Console} {machine : Machine}
    (called : machine.console.read faults = (.ok byte, console)) (use : Int → Machine → Outcome) :
    machine.read faults use = use byte.toNat { machine with console } := by
  simp [read, called]

theorem read_failed {faults : Faults} {cause : IoFault} {console : Console} {machine : Machine}
    (called : machine.console.read faults = (.error cause, console))
    (use : Int → Machine → Outcome) :
    machine.read faults use = .halted (.fault cause) { machine with console } := by
  simp [read, called]

theorem read_cases (faults : Faults) (machine : Machine) (use : Int → Machine → Outcome) :
    (∃ byte console, machine.console.read faults = (.ok byte, console) ∧
      machine.read faults use = use byte.toNat { machine with console }) ∨
    (∃ cause console, machine.console.read faults = (.error cause, console) ∧
      machine.read faults use = .halted (.fault cause) { machine with console }) := by
  rcases called : machine.console.read faults with ⟨cause | byte, console⟩
  · exact Or.inr ⟨cause, console, rfl, read_failed called use⟩
  · exact Or.inl ⟨byte, console, rfl, read_done called use⟩

end Machine

namespace Node

variable {Hole : Type}

def effect (setup : Setup) (fuel : Nat) (node : Node Hole) (machine : Machine) : Outcome :=
  match node with
  | .move distance => .finished (machine.move distance)
  | .add amount => .finished (machine.add amount)
  | .set value => .finished (machine.setCurrent value)
  | .print => machine.write setup.faults machine.tape.current
  | .read => machine.read setup.faults fun byte machine => .finished (machine.setCurrent byte)
  | .block children => executeAll setup fuel children machine
  | .loop body => machine.rounds setup.stepLimit (execute setup fuel body) fuel
  | .addTo offset => .finished (machine.addTo offset)
  | .hole _ => .halted .hole machine

theorem execute_eq (setup : Setup) (fuel : Nat) (node : Node Hole) (machine : Machine) :
    node.execute setup fuel machine =
      (machine.tick setup.stepLimit).next (node.effect setup fuel) := by
  cases node <;> simp only [execute] <;> rfl

@[simp] theorem executeAll_nil (setup : Setup) (fuel : Nat) (machine : Machine) :
    executeAll setup fuel ([] : List (Node Hole)) machine = .finished machine := by
  simp only [executeAll]

theorem executeAll_cons (setup : Setup) (fuel : Nat) (node : Node Hole)
    (rest : List (Node Hole)) (machine : Machine) :
    executeAll setup fuel (node :: rest) machine =
      (node.execute setup fuel machine).next (executeAll setup fuel rest) := by
  simp only [executeAll]

theorem executeAll_append (setup : Setup) (fuel : Nat) (nodes others : List (Node Hole))
    (machine : Machine) :
    executeAll setup fuel (nodes ++ others) machine =
      (executeAll setup fuel nodes machine).next (executeAll setup fuel others) := by
  induction nodes generalizing machine with
  | nil => simp
  | cons node rest ih =>
      rw [List.cons_append, executeAll_cons, executeAll_cons, Outcome.next_assoc]
      congr 1
      funext middle
      exact ih middle

theorem executeAll_singleton (setup : Setup) (fuel : Nat) (node : Node Hole)
    (machine : Machine) :
    executeAll setup fuel [node] machine = node.execute setup fuel machine := by
  rw [executeAll_cons]
  have none : executeAll setup fuel ([] : List (Node Hole)) = Outcome.finished :=
    funext fun middle => executeAll_nil setup fuel middle
  rw [none, Outcome.next_finish]

end Node

/-- What holds of every step of a run and of a run when it holds of its parts. -/
structure Lasting (limit : Option Int) (lasts : Machine → Outcome → Prop) : Prop where
  here : ∀ machine, lasts machine (.finished machine)
  next : ∀ {first middle outcome}, lasts first (.finished middle) → lasts middle outcome →
    lasts first outcome
  tick : ∀ machine, lasts machine (machine.tick limit)
  starved : ∀ machine, lasts machine (.halted .outOfFuel machine)

namespace Lasting

variable {limit : Option Int} {lasts : Machine → Outcome → Prop}

theorem andThen (lasting : Lasting limit lasts) {machine : Machine} {outcome : Outcome}
    {rest : Machine → Outcome} (first : lasts machine outcome)
    (others : ∀ middle, lasts middle (rest middle)) : lasts machine (outcome.next rest) := by
  cases outcome with
  | finished middle => exact lasting.next first (others middle)
  | halted halt middle => exact first

theorem rounds (lasting : Lasting limit lasts) {body : Machine → Outcome}
    (round : ∀ machine, lasts machine (body machine)) (fuel : Nat) (machine : Machine) :
    lasts machine (machine.rounds limit body fuel) := by
  induction fuel generalizing machine with
  | zero =>
      unfold Machine.rounds
      split
      · exact lasting.here machine
      · exact lasting.starved machine
  | succ fuel ih =>
      unfold Machine.rounds
      split
      · exact lasting.here machine
      · exact lasting.andThen (lasting.andThen (lasting.tick machine) round) ih

end Lasting

namespace Node

variable {Hole : Type} {setup : Setup} {lasts : Machine → Outcome → Prop}

mutual

theorem execute_lasts_stepwise (lasting : Lasting setup.stepLimit lasts) (fuel : Nat)
    (tree : Node Hole)
    (each : tree.Everywhere fun node => node.IsInstruction →
      ∀ machine, lasts machine (node.execute setup fuel machine)) (machine : Machine) :
    lasts machine (tree.execute setup fuel machine) := by
  match tree with
  | .block children =>
      rw [execute_eq]
      exact lasting.andThen (lasting.tick machine)
        (executeAll_lasts_stepwise lasting fuel children each.2)
  | .loop body =>
      rw [execute_eq]
      have round := execute_lasts_stepwise lasting fuel body each.2
      exact lasting.andThen (lasting.tick machine) (lasting.rounds round fuel)
  | .move _ | .add _ | .set _ | .print | .read | .addTo _ | .hole _ =>
      exact each.here trivial machine

theorem executeAll_lasts_stepwise (lasting : Lasting setup.stepLimit lasts) (fuel : Nat)
    (nodes : List (Node Hole))
    (each : EverywhereAll (fun node => node.IsInstruction →
      ∀ machine, lasts machine (node.execute setup fuel machine)) nodes) (machine : Machine) :
    lasts machine (executeAll setup fuel nodes machine) := by
  match nodes with
  | [] =>
      rw [executeAll_nil]
      exact lasting.here machine
  | node :: rest =>
      rw [executeAll_cons]
      exact lasting.andThen (execute_lasts_stepwise lasting fuel node each.1 machine)
        (executeAll_lasts_stepwise lasting fuel rest each.2)

end

theorem everywhere_stepwise (lasting : Lasting setup.stepLimit lasts) (fuel : Nat)
    (tree : Node Hole)
    (each : tree.Everywhere fun node => node.IsInstruction →
      ∀ machine, lasts machine (node.effect setup fuel machine)) :
    tree.Everywhere fun node => node.IsInstruction →
      ∀ machine, lasts machine (node.execute setup fuel machine) := by
  refine Everywhere.mono ?_ tree each
  intro node holds instruction start
  rw [execute_eq]
  exact lasting.andThen (lasting.tick start) (holds instruction)

theorem effect_lasts (lasting : Lasting setup.stepLimit lasts) (fuel : Nat) (tree : Node Hole)
    (each : tree.Everywhere fun node => node.IsInstruction →
      ∀ machine, lasts machine (node.effect setup fuel machine)) (machine : Machine) :
    lasts machine (tree.effect setup fuel machine) := by
  have steps := everywhere_stepwise lasting fuel tree each
  match tree with
  | .block children => exact executeAll_lasts_stepwise lasting fuel children steps.2 machine
  | .loop body =>
      exact lasting.rounds (execute_lasts_stepwise lasting fuel body steps.2) fuel machine
  | .move _ | .add _ | .set _ | .print | .read | .addTo _ | .hole _ =>
      exact each.here trivial machine

theorem execute_lasts (lasting : Lasting setup.stepLimit lasts) (fuel : Nat) (tree : Node Hole)
    (each : tree.Everywhere fun node => node.IsInstruction →
      ∀ machine, lasts machine (node.effect setup fuel machine)) (machine : Machine) :
    lasts machine (tree.execute setup fuel machine) :=
  execute_lasts_stepwise lasting fuel tree (everywhere_stepwise lasting fuel tree each) machine

/-! Instructions. -/

inductive Acts (faults : Faults) (machine : Machine) : Node Hole → Outcome → Prop
  | moved (distance) : Acts faults machine (.move distance) (.finished (machine.move distance))
  | wrote {node} (offset value : Int) (place : offset = 0 ∨ node = .addTo offset) :
      Acts faults machine node
        (.finished { machine with tape := machine.tape.set offset value })
  | printed {console} (called : machine.console.Called faults console) :
      Acts faults machine .print (.finished { machine with console })
  | taken {console} (called : machine.console.Called faults console) (value : Int) :
      Acts faults machine .read (.finished ({ machine with console }.setCurrent value))
  | failed {node console} (called : machine.console.Called faults console) (cause : IoFault) :
      Acts faults machine node (.halted (.fault cause) { machine with console })
  | notByte (value) : Acts faults machine .print (.halted (.notByte value) machine)
  | hole (mark) : Acts faults machine (.hole mark) (.halted .hole machine)

theorem effect_acts (setup : Setup) (fuel : Nat) {node : Node Hole}
    (instruction : node.IsInstruction) (machine : Machine) :
    node.Acts setup.faults machine (node.effect setup fuel machine) := by
  cases node with
  | block => cases instruction
  | loop => cases instruction
  | move distance => exact .moved distance
  | add amount =>
      rw [effect, Machine.add, Machine.setCurrent, ← Tape.set_zero]
      exact .wrote 0 _ (Or.inl rfl)
  | set value =>
      rw [effect, Machine.setCurrent, ← Tape.set_zero]
      exact .wrote 0 value (Or.inl rfl)
  | addTo offset => exact .wrote offset _ (Or.inr rfl)
  | hole mark => exact .hole mark
  | print =>
      rw [effect]
      rcases machine.write_cases setup.faults machine.tape.current with
        ⟨_, _, _, called, written⟩ | ⟨_, cause, _, _, called, written⟩ | ⟨_, written⟩
      · rw [written]
        exact .printed (.write called)
      · rw [written]
        exact .failed (.write called) cause
      · rw [written]
        exact .notByte _
  | read =>
      rw [effect]
      rcases machine.read_cases setup.faults
          (fun byte machine => .finished (machine.setCurrent byte)) with
        ⟨_, _, called, taken⟩ | ⟨cause, _, called, taken⟩
      · rw [taken]
        exact .taken (.read called) _
      · rw [taken]
        exact .failed (.read called) cause

namespace Acts

variable {faults : Faults} {machine : Machine} {node : Node Hole} {outcome : Outcome}

theorem steps (acts : node.Acts faults machine outcome) :
    outcome.machine.steps = machine.steps := by
  cases acts <;> rfl

theorem halts (acts : node.Acts faults machine outcome) {halt : Halt}
    (halted : outcome.halt? = some halt) :
    (∃ cause, halt = .fault cause) ∨ (node = .print ∧ ∃ value, halt = .notByte value) ∨
      (∃ mark, node = .hole mark) ∧ halt = .hole := by
  cases acts with
  | moved | wrote | printed | taken => cases halted
  | failed _ cause =>
      cases halted
      exact Or.inl ⟨cause, rfl⟩
  | notByte value =>
      cases halted
      exact Or.inr (Or.inl ⟨rfl, value, rfl⟩)
  | hole mark =>
      cases halted
      exact Or.inr (Or.inr ⟨⟨mark, rfl⟩, rfl⟩)

theorem console (acts : node.Acts faults machine outcome) :
    outcome.machine.console = machine.console ∨
      machine.console.Called faults outcome.machine.console := by
  cases acts with
  | moved | wrote | notByte | hole => exact Or.inl rfl
  | printed called | taken called | failed called => exact Or.inr called

theorem precedes (acts : node.Acts faults machine outcome) :
    machine.Precedes outcome.machine := by
  have steps := Nat.le_of_eq acts.steps.symm
  rcases acts.console with same | called
  · exact ⟨steps, by simp only [same, List.prefix_rfl], by simp only [same, List.suffix_rfl]⟩
  · exact ⟨steps, called.output, called.input⟩

end Acts

theorem steps_effect (setup : Setup) (fuel : Nat) {node : Node Hole}
    (instruction : node.IsInstruction) (machine : Machine) :
    (node.effect setup fuel machine).machine.steps = machine.steps :=
  (effect_acts setup fuel instruction machine).steps

/-! Steps, output and input. -/

theorem precedes_lasting (limit : Option Int) :
    Lasting limit fun machine outcome => machine.Precedes outcome.machine where
  here := Machine.Precedes.refl
  next := Machine.Precedes.trans
  tick := Machine.tick_precedes limit
  starved := Machine.Precedes.refl

theorem instruction_precedes (setup : Setup) (fuel : Nat) (tree : Node Hole) :
    tree.Everywhere fun node => node.IsInstruction → ∀ machine : Machine,
      machine.Precedes (node.effect setup fuel machine).machine := by
  apply everywhere_of_forall
  intro node instruction machine
  exact (effect_acts setup fuel instruction machine).precedes

theorem effect_precedes (setup : Setup) (fuel : Nat) (tree : Node Hole) (machine : Machine) :
    machine.Precedes (tree.effect setup fuel machine).machine :=
  effect_lasts (precedes_lasting setup.stepLimit) fuel tree (instruction_precedes setup fuel tree)
    machine

theorem execute_precedes (setup : Setup) (fuel : Nat) (tree : Node Hole) (machine : Machine) :
    machine.Precedes (tree.execute setup fuel machine).machine :=
  execute_lasts (precedes_lasting setup.stepLimit) fuel tree (instruction_precedes setup fuel tree)
    machine

theorem executeAll_precedes (setup : Setup) (fuel : Nat) (nodes : List (Node Hole))
    (machine : Machine) : machine.Precedes (executeAll setup fuel nodes machine).machine :=
  effect_precedes setup fuel (.block nodes) machine

theorem allowed_lasting (limit : Option Int) :
    Lasting limit fun machine outcome => machine.Allowed limit →
      ∀ after, outcome = .finished after → after.Allowed limit where
  here := by
    rintro machine allowed _ ⟨⟩
    exact allowed
  next := fun first rest allowed after ended => rest (first allowed _ rfl) after ended
  tick := by
    intro machine _ after ended
    rcases machine.tick_cases limit with ⟨counted, allowed⟩ | ⟨_, _, _, exceeded⟩
    · rw [counted] at ended
      cases ended
      exact allowed
    · rw [exceeded] at ended
      cases ended
  starved := by
    rintro _ _ _ ⟨⟩

theorem execute_finished {setup : Setup} {fuel : Nat} {tree : Node Hole}
    {machine after : Machine} (ended : tree.execute setup fuel machine = .finished after) :
    machine.steps < after.steps ∧ after.Allowed setup.stepLimit := by
  rw [execute_eq, Outcome.next_eq_finished_iff] at ended
  obtain ⟨middle, ticked, finished⟩ := ended
  rcases machine.tick_cases setup.stepLimit with ⟨counted, allowed⟩ | ⟨_, _, _, exceeded⟩
  · rw [counted] at ticked
    cases ticked
    have later := effect_precedes setup fuel tree { machine with steps := machine.steps + 1 }
    rw [finished] at later
    refine ⟨Nat.lt_of_succ_le later.steps, ?_⟩
    refine effect_lasts (allowed_lasting setup.stepLimit) fuel tree
      (everywhere_of_forall (fun node instruction start fine last done => ?_) tree)
      { machine with steps := machine.steps + 1 } allowed after finished
    have same := steps_effect setup fuel instruction start
    rw [done] at same
    intro most limited
    rw [← Outcome.machine_finished last, same]
    exact fine most limited
  · rw [exceeded] at ticked
    cases ticked

end Node

end TapeTree
