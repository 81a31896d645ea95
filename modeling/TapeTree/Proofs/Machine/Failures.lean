import TapeTree.Proofs.Machine.Limits

/-! Runs that end in a failing call. The step of that call does nothing else, so a limit that stops
the run at this step leaves the machine as the failure does, but for a byte that was written and
not flushed. -/

namespace TapeTree

inductive Console.FailedCall (faults : Faults) (before : Console) : IoFault → Console → Prop
  | endOfInput : faults.read before.reads = none → before.input = [] →
      FailedCall faults before .endOfInput { before with reads := before.reads + 1 }
  | read {text} : faults.read before.reads = some text →
      FailedCall faults before (.readFailed text) { before with reads := before.reads + 1 }
  | write {text} : faults.write before.writes = some text →
      FailedCall faults before (.writeFailed text) { before with writes := before.writes + 1 }
  | flush {text} (byte) : faults.write before.writes = none →
      faults.flush before.flushes = some text →
      FailedCall faults before (.writeFailed text)
        { before with
          output := before.output.push byte
          writes := before.writes + 1
          flushes := before.flushes + 1 }

structure Console.FlushFailed (faults : Faults) (before after : Console) : Prop where
  written : after.writes = before.writes + 1 ∧ faults.write before.writes = none
  flushed : after.flushes = before.flushes + 1 ∧ ∃ text, faults.flush before.flushes = some text

namespace Console

variable {faults : Faults} {console before after : Console} {cause : IoFault}

theorem read_failedCall (failed : console.read faults = (.error cause, after)) :
    console.FailedCall faults cause after := by
  unfold read at failed
  split at failed
  · rename_i text refused
    cases failed
    exact .read refused
  · rename_i allowed
    split at failed
    · rename_i ended
      cases failed
      exact .endOfInput allowed ended
    · cases failed

theorem flush_failed (failed : console.flush faults = (.error cause, after)) :
    ∃ text, faults.flush console.flushes = some text ∧ cause = .writeFailed text ∧
      after = { console with flushes := console.flushes + 1 } := by
  unfold flush at failed
  split at failed
  · rename_i text refused
    cases failed
    exact ⟨text, refused, rfl, rfl⟩
  · cases failed

theorem write_failedCall {byte : UInt8} (failed : console.write faults byte = (.error cause, after)) :
    console.FailedCall faults cause after := by
  unfold write at failed
  split at failed
  · rename_i text refused
    cases failed
    exact .write refused
  · rename_i allowed
    obtain ⟨text, refused, rfl, rfl⟩ := flush_failed failed
    exact .flush byte allowed refused

namespace FailedCall

theorem input (failed : before.FailedCall faults cause after) : before.input = after.input := by
  cases failed <;> rfl

theorem input_of_endOfInput (failed : before.FailedCall faults .endOfInput after) :
    after.input = [] := by
  rw [← failed.input]
  cases failed with
  | endOfInput _ ended => exact ended

theorem output (failed : before.FailedCall faults cause after) :
    (before.FlushFailed faults after ∧ ∃ byte, after.output = before.output.push byte) ∨
      ¬ before.FlushFailed faults after ∧ after.output = before.output := by
  cases failed with
  | endOfInput | read | write =>
      refine Or.inr ⟨?_, rfl⟩
      intro flushFailed
      have once := flushFailed.flushed.1
      simp at once
  | flush byte allowed refused =>
      exact Or.inl ⟨⟨⟨rfl, allowed⟩, rfl, _, refused⟩, byte, rfl⟩

end FailedCall

end Console

/-- The next call that a machine makes fails, and nothing is done before it. -/
structure Machine.FailsAt (faults : Faults) (machine : Machine) (cause : IoFault)
    (after : Machine) : Prop where
  tape : machine.tape = after.tape
  steps : machine.steps = after.steps
  call : machine.console.FailedCall faults cause after.console

namespace Node

variable {Hole : Type} {setup : Setup} {fuel : Nat} {machine after : Machine} {cause : IoFault}

/-! Where a run can fail without a further step. -/

theorem steps_lt_execute (setup : Setup) (fuel : Nat) (tree : Node Hole) (machine : Machine) :
    machine.steps < (tree.execute setup fuel machine).machine.steps := by
  rw [execute_eq]
  rcases machine.tick_cases setup.stepLimit with ⟨counted, _⟩ | ⟨_, _, _, exceeded⟩
  · rw [counted, Outcome.next_finished]
    have later := (effect_precedes setup fuel tree { machine with steps := machine.steps + 1 }).steps
    exact Nat.lt_of_succ_le later
  · rw [exceeded]
    exact Nat.lt_succ_self _

theorem steps_lt_of_executeAll_failed {nodes : List (Node Hole)}
    (failed : executeAll setup fuel nodes machine = .halted (.fault cause) after) :
    machine.steps < after.steps := by
  cases nodes with
  | nil =>
      rw [executeAll_nil] at failed
      cases failed
  | cons node rest =>
      have further := steps_lt_execute setup fuel node machine
      rw [executeAll_cons] at failed
      cases ended : node.execute setup fuel machine with
      | finished middle =>
          have later := executeAll_precedes setup fuel rest middle
          rw [ended] at failed further
          rw [Outcome.next_finished] at failed
          rw [failed] at later
          exact Nat.lt_of_lt_of_le further later.steps
      | halted halt middle =>
          rw [ended] at failed further
          cases failed
          exact further

theorem steps_lt_of_rounds_failed {limit : Option Int} {body : Machine → Outcome}
    (onward : ∀ start : Machine, start.Precedes (body start).machine)
    (failed : machine.rounds limit body fuel = .halted (.fault cause) after) :
    machine.steps < after.steps := by
  cases fuel with
  | zero =>
      unfold Machine.rounds at failed
      split at failed <;> cases failed
  | succ fuel =>
      unfold Machine.rounds at failed
      split at failed
      · cases failed
      · rcases machine.tick_cases limit with ⟨counted, _⟩ | ⟨_, _, _, exceeded⟩
        · have lasting := precedes_lasting limit
          have later := lasting.andThen (onward { machine with steps := machine.steps + 1 })
            (lasting.rounds onward fuel)
          rw [counted, Outcome.next_finished] at failed
          rw [failed] at later
          exact Nat.lt_of_succ_le later.steps
        · rw [exceeded] at failed
          cases failed

theorem effect_failsAt (node : Node Hole)
    (failed : node.effect setup fuel machine = .halted (.fault cause) after) :
    machine.steps < after.steps ∨ machine.FailsAt setup.faults cause after := by
  cases node with
  | move | add | set | addTo | hole => cases failed
  | block children => exact Or.inl (steps_lt_of_executeAll_failed failed)
  | loop body =>
      exact Or.inl (steps_lt_of_rounds_failed (execute_precedes setup fuel body) failed)
  | print =>
      rw [effect] at failed
      rcases machine.write_cases setup.faults machine.tape.current with
        ⟨_, _, _, _, written⟩ | ⟨byte, _, _, _, called, written⟩ | ⟨_, written⟩
      · rw [written] at failed
        cases failed
      · rw [written] at failed
        cases failed
        exact Or.inr ⟨rfl, rfl, Console.write_failedCall called⟩
      · rw [written] at failed
        cases failed
  | read =>
      rw [effect] at failed
      rcases machine.read_cases setup.faults
          (fun byte machine => .finished (machine.setCurrent byte)) with
        ⟨_, _, _, taken⟩ | ⟨_, _, called, taken⟩
      · rw [taken] at failed
        cases failed
      · rw [taken] at failed
        cases failed
        exact Or.inr ⟨rfl, rfl, Console.read_failedCall called⟩

end Node

/-! The same run under a limit that stops it at a given step. -/

/-- The second run goes as the first one until `last` steps are counted. The next step stops it, at
a machine from which the first one may fail at once. -/
def Outcome.CutAfter (faults : Faults) (last : Nat) (outcome ending : Outcome) : Prop :=
  (outcome = ending ∧ outcome.machine.steps ≤ last) ∨
    ∃ stopped, ending = .halted (.stepLimit last (last + 1)) stopped ∧
      last < outcome.machine.steps ∧
      ∀ cause after, outcome = .halted (.fault cause) after →
        last + 1 < after.steps ∨ stopped.FailsAt faults cause after

theorem Machine.tick_cut {limit : Option Int} {last : Nat}
    (roomy : ∀ most, limit = some most → (last : Int) < most) {machine : Machine}
    (early : machine.steps ≤ last) :
    machine.tick limit = .finished { machine with steps := machine.steps + 1 } ∧
      ((machine.steps + 1 ≤ last ∧
          machine.tick (some last) = .finished { machine with steps := machine.steps + 1 }) ∨
        (machine.steps = last ∧
          machine.tick (some last) =
            .halted (.stepLimit last (last + 1)) { machine with steps := last + 1 })) := by
  rcases machine.tick_cases limit with ⟨counted, _⟩ | ⟨most, limited, low, _⟩
  · refine ⟨counted, ?_⟩
    rcases machine.tick_cases (some last) with ⟨also, allowed⟩ | ⟨most, same, low, exceeded⟩
    · have within : ((machine.steps + 1 : Nat) : Int) ≤ last := allowed last rfl
      exact Or.inl ⟨by omega, also⟩
    · cases same
      have now : machine.steps = last := by omega
      rw [exceeded, now]
      exact Or.inr ⟨rfl, rfl⟩
  · have room := roomy most limited
    omega

namespace Outcome.CutAfter

variable {faults : Faults} {last : Nat}

theorem tick {limit : Option Int} (roomy : ∀ most, limit = some most → (last : Int) < most)
    {machine : Machine} (early : machine.steps ≤ last) :
    CutAfter faults last (machine.tick limit) (machine.tick (some last)) := by
  obtain ⟨counted, ⟨within, also⟩ | ⟨rfl, exceeded⟩⟩ := Machine.tick_cut roomy early
  · rw [counted, also]
    exact Or.inl ⟨rfl, within⟩
  · rw [counted, exceeded]
    refine Or.inr ⟨_, rfl, Nat.lt_succ_self machine.steps, ?_⟩
    intro cause after failed
    cases failed

theorem next {outcome ending : Outcome} {rest others : Machine → Outcome}
    (cut : CutAfter faults last outcome ending)
    (onward : ∀ machine : Machine, machine.steps ≤ last →
      CutAfter faults last (rest machine) (others machine))
    (later : ∀ machine : Machine, machine.Precedes (rest machine).machine)
    (failing : ∀ (machine : Machine) (cause : IoFault) (after : Machine),
      rest machine = .halted (.fault cause) after → machine.steps < after.steps) :
    CutAfter faults last (outcome.next rest) (ending.next others) := by
  rcases cut with ⟨rfl, early⟩ | ⟨stopped, rfl, late, fails⟩
  · cases outcome with
    | finished machine => exact onward machine early
    | halted halt machine => exact Or.inl ⟨rfl, early⟩
  · refine Or.inr ⟨stopped, rfl, ?_, ?_⟩
    · cases outcome with
      | finished machine => exact Nat.lt_of_lt_of_le late (later machine).steps
      | halted halt machine => exact late
    · intro cause after failed
      cases outcome with
      | finished machine =>
          have further := failing machine cause after failed
          rw [machine_finished] at late
          exact Or.inl (by omega)
      | halted halt machine => exact fails cause after failed

theorem rounds {limit : Option Int} {body another : Machine → Outcome}
    (roomy : ∀ most, limit = some most → (last : Int) < most)
    (round : ∀ machine : Machine, machine.steps ≤ last →
      CutAfter faults last (body machine) (another machine))
    (onward : ∀ machine : Machine, machine.Precedes (body machine).machine)
    (counts : ∀ machine : Machine, machine.steps < (body machine).machine.steps) (fuel : Nat)
    {machine : Machine} (early : machine.steps ≤ last) :
    CutAfter faults last (machine.rounds limit body fuel)
      (machine.rounds (some last) another fuel) := by
  induction fuel generalizing machine with
  | zero =>
      unfold Machine.rounds
      split
      · exact Or.inl ⟨rfl, early⟩
      · exact Or.inl ⟨rfl, early⟩
  | succ fuel ih =>
      have lasting := Node.precedes_lasting limit
      unfold Machine.rounds
      split
      · exact Or.inl ⟨rfl, early⟩
      · refine next (next (tick roomy early) round onward ?_) (fun _ => ih)
          (lasting.rounds onward fuel) ?_
        · intro start cause after failed
          have further := counts start
          rwa [failed] at further
        · intro start cause after failed
          exact Node.steps_lt_of_rounds_failed onward failed

end Outcome.CutAfter

namespace Node

variable {Hole : Type} {faults : Faults} {limit : Option Int} {last : Nat}

theorem instruction_cutAfter (fuel : Nat) {node : Node Hole} (instruction : node.IsInstruction)
    {machine : Machine} (early : machine.steps ≤ last) :
    Outcome.CutAfter faults last (node.effect ⟨faults, limit⟩ fuel machine)
      (node.effect ⟨faults, some last⟩ fuel machine) := by
  refine Or.inl ⟨?_, ?_⟩
  · cases node with
    | block => cases instruction
    | loop => cases instruction
    | _ => rfl
  · rw [steps_effect _ _ instruction]
    exact early

theorem execute_cutAfter_of_effect (roomy : ∀ most, limit = some most → (last : Int) < most)
    (fuel : Nat) (tree : Node Hole)
    (effects : ∀ start : Machine, start.steps ≤ last →
      Outcome.CutAfter faults last (tree.effect ⟨faults, limit⟩ fuel start)
        (tree.effect ⟨faults, some last⟩ fuel start))
    {machine : Machine} (early : machine.steps ≤ last) :
    Outcome.CutAfter faults last (tree.execute ⟨faults, limit⟩ fuel machine)
      (tree.execute ⟨faults, some last⟩ fuel machine) := by
  rw [execute_eq, execute_eq]
  obtain ⟨counted, ⟨within, also⟩ | ⟨rfl, exceeded⟩⟩ := Machine.tick_cut roomy early
  · rw [counted, also]
    exact effects _ within
  · -- the limit is met here, and only here a failure can follow without a further step
    have later := effect_precedes ⟨faults, limit⟩ fuel tree
      { machine with steps := machine.steps + 1 }
    rw [counted, exceeded, Outcome.next_finished]
    refine Or.inr ⟨_, rfl, Nat.lt_of_succ_le later.steps, ?_⟩
    intro cause after failed
    exact effect_failsAt tree failed

mutual

theorem effect_cutAfter (roomy : ∀ most, limit = some most → (last : Int) < most) (fuel : Nat)
    (tree : Node Hole) (machine : Machine) (early : machine.steps ≤ last) :
    Outcome.CutAfter faults last (tree.effect ⟨faults, limit⟩ fuel machine)
      (tree.effect ⟨faults, some last⟩ fuel machine) := by
  match tree with
  | .block children => exact executeAll_cutAfter roomy fuel children machine early
  | .loop body =>
      refine Outcome.CutAfter.rounds roomy (fun start soon => ?_)
        (execute_precedes ⟨faults, limit⟩ fuel body) (steps_lt_execute ⟨faults, limit⟩ fuel body)
        fuel early
      exact execute_cutAfter_of_effect roomy fuel body (effect_cutAfter roomy fuel body) soon
  | .move _ | .add _ | .set _ | .print | .read | .addTo _ | .hole _ =>
      apply instruction_cutAfter
      · trivial
      · exact early

theorem executeAll_cutAfter (roomy : ∀ most, limit = some most → (last : Int) < most) (fuel : Nat)
    (nodes : List (Node Hole)) (machine : Machine) (early : machine.steps ≤ last) :
    Outcome.CutAfter faults last (executeAll ⟨faults, limit⟩ fuel nodes machine)
      (executeAll ⟨faults, some last⟩ fuel nodes machine) := by
  match nodes with
  | [] =>
      rw [executeAll_nil, executeAll_nil]
      exact Or.inl ⟨rfl, early⟩
  | node :: rest =>
      rw [executeAll_cons, executeAll_cons]
      refine Outcome.CutAfter.next ?_ (executeAll_cutAfter roomy fuel rest)
        (executeAll_precedes ⟨faults, limit⟩ fuel rest) ?_
      · exact execute_cutAfter_of_effect roomy fuel node (effect_cutAfter roomy fuel node) early
      · intro start cause after failed
        exact steps_lt_of_executeAll_failed failed

end

/-- A run that ends in a failing call is stopped right before the call if the limit is one step
less than it has counted. -/
theorem Ends.cut_before_failure {tree : Node Hole} {machine after : Machine} {cause : IoFault}
    (ends : tree.Ends ⟨faults, limit⟩ machine (.halted (.fault cause) after)) :
    ∃ stopped, tree.Ends ⟨faults, some (after.steps - 1)⟩ machine
        (.halted (.stepLimit (after.steps - 1) after.steps) stopped) ∧
      stopped.FailsAt faults cause after := by
  obtain ⟨_, fuel, ran⟩ := id ends
  have counts := steps_lt_execute ⟨faults, limit⟩ fuel tree machine
  rw [ran, Outcome.machine_halted] at counts
  obtain ⟨last, steps⟩ : ∃ last, after.steps = last + 1 := ⟨after.steps - 1, by omega⟩
  have roomy : ∀ most, limit = some most → (last : Int) < most := by
    rintro most rfl
    have within := ends.steps_le (by rintro ⟨_, _, exceeded⟩; cases exceeded)
    rw [Outcome.machine_halted] at within
    omega
  have bound : (after.steps : Int) - 1 = last := by omega
  have early : machine.steps ≤ last := by omega
  have cut : Outcome.CutAfter faults last (tree.execute ⟨faults, limit⟩ fuel machine) _ :=
    execute_cutAfter_of_effect roomy fuel tree (effect_cutAfter roomy fuel tree) early
  rw [ran] at cut
  rcases cut with ⟨_, early⟩ | ⟨stopped, ended, _, fails⟩
  · rw [Outcome.machine_halted] at early
    omega
  · have fails := (fails cause after rfl).resolve_left (by omega)
    refine ⟨stopped, ⟨by simp [Outcome.halt?], fuel, ?_⟩, fails⟩
    rw [bound, steps]
    exact ended

end Node

/-! Bytes and flushes in a session. -/

namespace Console

variable {faults : Faults} {console : Console}

def failedFlushes (faults : Faults) (console : Console) : Nat :=
  (List.range console.flushes).countP fun call => (faults.flush call).isSome

structure Tallied (faults : Faults) (console : Console) : Prop where
  output : console.output.size = console.flushes
  flushes : console.flushes = console.flushed + console.failedFlushes faults

theorem tallied_fresh (faults : Faults) (input : List UInt8) :
    ({ input } : Console).Tallied faults := by
  constructor
  · rfl
  · rfl

theorem read_tallied (tallied : console.Tallied faults) : (console.read faults).2.Tallied faults := by
  unfold read
  split
  · exact ⟨tallied.output, tallied.flushes⟩
  · split
    · exact ⟨tallied.output, tallied.flushes⟩
    · exact ⟨tallied.output, tallied.flushes⟩

theorem flush_tallied (output : console.output.size = console.flushes + 1)
    (flushes : console.flushes = console.flushed + console.failedFlushes faults) :
    (console.flush faults).2.Tallied faults := by
  simp only [failedFlushes] at flushes
  unfold flush
  split
  · rename_i text refused
    refine ⟨output, ?_⟩
    simp only [failedFlushes, List.range_succ, List.countP_append, List.countP_singleton, refused,
      Option.isSome_some, if_true]
    omega
  · rename_i allowed
    refine ⟨output, ?_⟩
    simp only [failedFlushes, List.range_succ, List.countP_append, List.countP_singleton, allowed,
      Option.isSome_none, Bool.false_eq_true, if_false]
    omega

theorem write_tallied (byte : UInt8) (tallied : console.Tallied faults) :
    (console.write faults byte).2.Tallied faults := by
  unfold write
  split
  · exact ⟨tallied.output, tallied.flushes⟩
  · apply flush_tallied
    · simp only [Array.size_push, tallied.output]
    · exact tallied.flushes

theorem Called.tallied {before after : Console} (called : before.Called faults after)
    (tallied : before.Tallied faults) : after.Tallied faults := by
  cases called with
  | @write byte _ made =>
      have kept := write_tallied byte tallied
      rwa [made] at kept
  | read made =>
      have kept := read_tallied tallied
      rwa [made] at kept

end Console

theorem tallied_lasting (faults : Faults) (limit : Option Int) :
    Lasting limit fun machine outcome =>
      machine.console.Tallied faults → outcome.machine.console.Tallied faults where
  here := fun _ tallied => tallied
  next := fun first rest tallied => rest (first tallied)
  tick := by
    intro machine tallied
    rwa [machine.machine_tick]
  starved := fun _ tallied => tallied

theorem Machine.write_tallied {faults : Faults} {machine : Machine} (value : Int)
    (tallied : machine.console.Tallied faults) :
    (machine.write faults value).machine.console.Tallied faults := by
  rcases machine.write_cases faults value with
    ⟨_, _, _, made, written⟩ | ⟨_, _, _, _, made, written⟩ | ⟨_, written⟩
  · rw [written]
    exact (Console.Called.write made).tallied tallied
  · rw [written]
    exact (Console.Called.write made).tallied tallied
  · rwa [written]

namespace Node

variable {Hole : Type} {setup : Setup} {fuel : Nat}

theorem effect_tallied {node : Node Hole} (instruction : node.IsInstruction) {machine : Machine}
    (tallied : machine.console.Tallied setup.faults) :
    (node.effect setup fuel machine).machine.console.Tallied setup.faults := by
  rcases (effect_acts setup fuel instruction machine).console with same | called
  · rwa [same]
  · exact called.tallied tallied

theorem execute_tallied (tree : Node Hole) {machine : Machine}
    (tallied : machine.console.Tallied setup.faults) :
    (tree.execute setup fuel machine).machine.console.Tallied setup.faults := by
  refine execute_lasts (tallied_lasting setup.faults setup.stepLimit) fuel tree ?_ machine tallied
  apply everywhere_of_forall
  intro node instruction start
  exact effect_tallied instruction

end Node

namespace Machine

variable {Hole : Type} {zeros : ArrayMaker} {setup : Setup} {fuel : Nat}

theorem answered_machine (outcome : Outcome) : (answered outcome).2 = outcome.machine := by
  cases outcome <;> rfl

theorem perform_tallied {machine : Machine} (request : Request Hole)
    (tallied : machine.console.Tallied setup.faults) :
    (machine.perform zeros setup fuel request).2.console.Tallied setup.faults := by
  cases request with
  | move | get | set | reset | snapshot => exact tallied
  | write value =>
      rw [perform, answered_machine]
      exact write_tallied value tallied
  | read =>
      rw [perform]
      split <;>
      · rename_i made
        exact (Console.Called.read made).tallied tallied
  | execute tree =>
      rw [perform, answered_machine]
      exact tree.execute_tallied tallied
  | executeSource source passes =>
      rw [perform]
      split
      · exact tallied
      · split
        · rw [answered_machine]
          exact Node.execute_tallied _ tallied
        · rw [answered_machine]
          exact Node.execute_tallied _ tallied

theorem performAll_tallied {machine : Machine} (tallied : machine.console.Tallied setup.faults)
    (requests : List (Request Hole)) :
    ∀ result ∈ machine.performAll zeros setup fuel requests,
      result.2.console.Tallied setup.faults := by
  induction requests generalizing machine with
  | nil => simp [performAll]
  | cons request rest ih =>
      have first : (machine.perform zeros setup fuel request).2.console.Tallied setup.faults :=
        perform_tallied request tallied
      rw [performAll]
      exact List.forall_mem_cons.mpr ⟨first, ih first⟩

end Machine

/-- A run that ends in a failing call is stopped by a limit of one step less with the same cells,
pointer and unread input, and with the same output but for a byte that was written when the flush
after it failed. In a session, every byte of the output was flushed once, and these flushes are
the successful ones and those that failed. -/
theorem failing_call_is_atomic {Hole : Type} (faults : Faults) (limit : Option Int) :
    (∀ (tree : Node Hole) (machine after : Machine) (cause : IoFault),
      tree.Ends ⟨faults, limit⟩ machine (.halted (.fault cause) after) →
      ∃ stopped, tree.Ends ⟨faults, some (after.steps - 1)⟩ machine
          (.halted (.stepLimit (after.steps - 1) after.steps) stopped) ∧
        stopped.steps = after.steps ∧ stopped.tape = after.tape ∧
        stopped.console.input = after.console.input ∧
        ((stopped.console.FlushFailed faults after.console ∧
            ∃ byte, after.console.output = stopped.console.output.push byte) ∨
          ¬ stopped.console.FlushFailed faults after.console ∧
            after.console.output = stopped.console.output)) ∧
    ∀ (zeros : ArrayMaker) (fuel : Nat) (input : List UInt8) (requests : List (Request Hole)),
      ∀ result ∈ ({ console := { input } } : Machine).performAll zeros ⟨faults, limit⟩ fuel requests,
        result.2.console.output.size =
          result.2.console.flushed + result.2.console.failedFlushes faults := by
  constructor
  · intro tree machine after cause ends
    obtain ⟨stopped, cut, fails⟩ := ends.cut_before_failure
    exact ⟨stopped, cut, fails.steps, fails.tape, fails.call.input, fails.call.output⟩
  · intro zeros fuel input requests result member
    have tallied := Machine.performAll_tallied (Console.tallied_fresh faults input) requests
      result member
    rw [tallied.output]
    exact tallied.flushes

def Faults.atSecondFlush : Faults := { flush := fun call => if call = 1 then some "full" else none }

/-- The byte 1 is written and not flushed. -/
theorem unflushed_byte_is_atomic :
    (∃ after stopped,
      (.loop (.block [.print, .add 255]) : Tree).Ends ⟨.atSecondFlush, none⟩
        { tape := ({} : Tape).setCurrent 2 } (.halted (.fault (.writeFailed "full")) after) ∧
      (.loop (.block [.print, .add 255]) : Tree).Ends ⟨.atSecondFlush, some 7⟩
        { tape := ({} : Tape).setCurrent 2 } (.halted (.stepLimit 7 8) stopped) ∧
      stopped.tape = after.tape ∧ after.console.output = #[2, 1] ∧
      stopped.console.output = #[2]) ∧
    ∀ result ∈ ({ console := { input := [2] } } : Machine).performAll (zerosWithin fun _ => true)
        ⟨.atSecondFlush, none⟩ 4
        ([.executeSource ",[.-]" none, .read, .write 7] : List (Request Empty)),
      result.2.console.output.size =
        result.2.console.flushed + result.2.console.failedFlushes .atSecondFlush := by
  obtain ⟨runs, sessions⟩ := @failing_call_is_atomic Empty .atSecondFlush none
  constructor
  · have fails : ((.loop (.block [.print, .add 255]) : Tree).execute ⟨.atSecondFlush, none⟩ 4
        { tape := ({} : Tape).setCurrent 2 }).halt? = some (.fault (.writeFailed "full")) := by
      decide +kernel
    have steps : ((.loop (.block [.print, .add 255]) : Tree).execute ⟨.atSecondFlush, none⟩ 4
        { tape := ({} : Tape).setCurrent 2 }).machine.steps = 8 := by
      decide +kernel
    have output : ((.loop (.block [.print, .add 255]) : Tree).execute ⟨.atSecondFlush, none⟩ 4
        { tape := ({} : Tape).setCurrent 2 }).machine.console.output = #[2, 1] := by
      decide +kernel
    have limited : ((.loop (.block [.print, .add 255]) : Tree).execute ⟨.atSecondFlush, some 7⟩ 8
        { tape := ({} : Tape).setCurrent 2 }).machine.console.output = #[2] := by
      decide +kernel
    have enough : (7 : Int) < ({ tape := ({} : Tape).setCurrent 2 } : Machine).steps + (8 : Nat) := by
      decide
    generalize (.loop (.block [.print, .add 255]) : Tree) = countdown at *
    generalize ({ tape := ({} : Tape).setCurrent 2 } : Machine) = start at *
    cases ran : countdown.execute ⟨.atSecondFlush, none⟩ 4 start with
    | finished after =>
        rw [ran] at fails
        cases fails
    | halted halt after =>
        rw [ran] at fails steps output
        cases fails
        have ends : countdown.Ends ⟨.atSecondFlush, none⟩ start
            (.halted (.fault (.writeFailed "full")) after) :=
          ⟨by simp [Outcome.halt?], 4, ran⟩
        obtain ⟨stopped, cut, _, tape, _, _⟩ := runs countdown start after _ ends
        rw [Outcome.machine_halted] at steps output
        have bound : (after.steps : Int) - 1 = 7 := by omega
        rw [bound, steps] at cut
        have same := cut.unique (Node.ends_of_limited rfl countdown start enough)
        rw [← same, Outcome.machine_halted] at limited
        exact ⟨after, stopped, ends, cut, tape, output, limited⟩
  · exact sessions _ 4 [2] [.executeSource ",[.-]" none, .read, .write 7]

end TapeTree
