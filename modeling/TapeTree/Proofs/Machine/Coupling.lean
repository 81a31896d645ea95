import TapeTree.Proofs.Machine.Runs

/-! Two runs of one tree side by side. What holds of them after every step holds at their ends;
with it, more fuel and looser limits are shown to change no run that ended by itself. -/

namespace TapeTree

/-- What can be kept between two runs from their starts to their ends. Fuel may run out earlier
in the first one. -/
structure Coupling (first second : Setup) (coupled : Outcome → Outcome → Prop) : Prop where
  tick : ∀ {machine other : Machine}, coupled (.finished machine) (.finished other) →
    coupled (machine.tick first.stepLimit) (other.tick second.stepLimit)
  current : ∀ {machine other : Machine}, coupled (.finished machine) (.finished other) →
    (machine.tape.current = 0 ↔ other.tape.current = 0)
  next : ∀ {outcome ending : Outcome} {rest others : Machine → Outcome},
    coupled outcome ending →
    (∀ machine other, coupled (.finished machine) (.finished other) →
      coupled (rest machine) (others other)) →
    (∀ other : Machine, other.Precedes (others other).machine) →
    coupled (outcome.next rest) (ending.next others)
  starved : ∀ {machine other : Machine} {ending : Outcome},
    coupled (.finished machine) (.finished other) → other.Precedes ending.machine →
    coupled (.halted .outOfFuel machine) ending

namespace Coupling

variable {first second : Setup} {coupled : Outcome → Outcome → Prop}

theorem rounds (coupling : Coupling first second coupled) {body another : Machine → Outcome}
    (round : ∀ machine other, coupled (.finished machine) (.finished other) →
      coupled (body machine) (another other))
    (onward : ∀ other : Machine, other.Precedes (another other).machine) {fuel supply : Nat}
    (more : fuel ≤ supply) {machine other : Machine}
    (start : coupled (.finished machine) (.finished other)) :
    coupled (machine.rounds first.stepLimit body fuel)
      (other.rounds second.stepLimit another supply) := by
  have lasting := Node.precedes_lasting second.stepLimit
  induction fuel generalizing supply machine other with
  | zero =>
      have later := lasting.rounds onward supply other
      by_cases zero : machine.tape.current = 0
      · have otherZero := (coupling.current start).mp zero
        cases supply <;> simpa [Machine.rounds, zero, otherZero] using start
      · simp only [Machine.rounds, zero, if_false]
        exact coupling.starved start later
  | succ fuel ih =>
      obtain ⟨supply, rfl⟩ : ∃ count, supply = count + 1 := ⟨supply - 1, by omega⟩
      by_cases zero : machine.tape.current = 0
      · have otherZero := (coupling.current start).mp zero
        simpa [Machine.rounds, zero, otherZero] using start
      · have otherZero : ¬ other.tape.current = 0 := fun same =>
          zero ((coupling.current start).mpr same)
        simp only [Machine.rounds, zero, otherZero, if_false]
        refine coupling.next (coupling.next (coupling.tick start) round onward) ?_ ?_
        · intro middle otherMiddle met
          exact ih (by omega) met
        · exact lasting.rounds onward supply

end Coupling

namespace Node

variable {Hole : Type} {first second : Setup} {coupled : Outcome → Outcome → Prop}
  {fuel supply : Nat}

mutual

theorem effect_coupled (coupling : Coupling first second coupled) (more : fuel ≤ supply)
    (tree : Node Hole)
    (each : tree.Everywhere fun node => node.IsInstruction → ∀ machine other,
      coupled (.finished machine) (.finished other) →
      coupled (node.effect first fuel machine) (node.effect second supply other))
    {machine other : Machine} (start : coupled (.finished machine) (.finished other)) :
    coupled (tree.effect first fuel machine) (tree.effect second supply other) := by
  match tree with
  | .block children => exact executeAll_coupled coupling more children each.2 start
  | .loop body =>
      refine coupling.rounds (fun machine other met => ?_) (execute_precedes second supply body)
        more start
      rw [execute_eq, execute_eq]
      exact coupling.next (coupling.tick met)
        (fun _ _ ticked => effect_coupled coupling more body each.2 ticked)
        (effect_precedes second supply body)
  | .move _ | .add _ | .set _ | .print | .read | .addTo _ | .hole _ =>
      exact each.here trivial _ _ start

theorem executeAll_coupled (coupling : Coupling first second coupled) (more : fuel ≤ supply)
    (nodes : List (Node Hole))
    (each : EverywhereAll (fun node => node.IsInstruction → ∀ machine other,
      coupled (.finished machine) (.finished other) →
      coupled (node.effect first fuel machine) (node.effect second supply other)) nodes)
    {machine other : Machine} (start : coupled (.finished machine) (.finished other)) :
    coupled (executeAll first fuel nodes machine) (executeAll second supply nodes other) := by
  match nodes with
  | [] =>
      rw [executeAll_nil, executeAll_nil]
      exact start
  | node :: rest =>
      rw [executeAll_cons, executeAll_cons]
      refine coupling.next ?_
        (fun _ _ met => executeAll_coupled coupling more rest each.2 met)
        (executeAll_precedes second supply rest)
      rw [execute_eq, execute_eq]
      exact coupling.next (coupling.tick start)
        (fun _ _ ticked => effect_coupled coupling more node each.1 ticked)
        (effect_precedes second supply node)

end

theorem execute_coupled (coupling : Coupling first second coupled) (more : fuel ≤ supply)
    (tree : Node Hole)
    (each : tree.Everywhere fun node => node.IsInstruction → ∀ machine other,
      coupled (.finished machine) (.finished other) →
      coupled (node.effect first fuel machine) (node.effect second supply other))
    {machine other : Machine} (start : coupled (.finished machine) (.finished other)) :
    coupled (tree.execute first fuel machine) (tree.execute second supply other) := by
  rw [execute_eq, execute_eq]
  exact coupling.next (coupling.tick start)
    (fun _ _ ticked => effect_coupled coupling more tree each ticked)
    (effect_precedes second supply tree)

/-! More fuel and looser limits. -/

/-- The second run ends as the first one, or the first was given up and the second went on. -/
def SameUnless (given : Halt → Prop) (outcome ending : Outcome) : Prop :=
  (∃ halt machine, outcome = .halted halt machine ∧ given halt ∧
    machine.Precedes ending.machine) ∨ outcome = ending

theorem SameUnless.of_finished {given : Halt → Prop} {machine : Machine} {ending : Outcome}
    (together : SameUnless given (.finished machine) ending) : ending = .finished machine := by
  rcases together with ⟨_, _, ended, _⟩ | same
  · cases ended
  · exact same.symm

theorem SameUnless.next_of_halted {given : Halt → Prop} {halt : Halt} {machine : Machine}
    {ending : Outcome} {others : Machine → Outcome}
    (together : SameUnless given (.halted halt machine) ending)
    (later : ∀ other : Machine, other.Precedes (others other).machine) :
    SameUnless given (.halted halt machine) (ending.next others) := by
  rcases together with ⟨_, _, ended, gave, wentOn⟩ | same
  · cases ended
    refine Or.inl ⟨halt, machine, rfl, gave, ?_⟩
    cases ending with
    | finished other => exact wentOn.trans (later other)
    | halted => exact wentOn
  · cases same
    exact Or.inr rfl

theorem sameUnless_coupling {given : Halt → Prop} (starved : given .outOfFuel)
    (ticks : ∀ machine : Machine, SameUnless given (machine.tick first.stepLimit)
      (machine.tick second.stepLimit)) : Coupling first second (SameUnless given) where
  tick := by
    intro machine other together
    cases together.of_finished
    exact ticks machine
  current := by
    intro machine other together
    cases together.of_finished
    rfl
  next := by
    intro outcome ending rest others together onward later
    cases outcome with
    | finished machine =>
        cases together.of_finished
        exact onward machine machine (Or.inr rfl)
    | halted halt machine => exact together.next_of_halted later
  starved := by
    intro machine other ending together later
    cases together.of_finished
    exact Or.inl ⟨_, _, rfl, starved, later⟩

theorem execute_sameUnless {given : Halt → Prop} (starved : given .outOfFuel)
    (ticks : ∀ machine : Machine, SameUnless given (machine.tick first.stepLimit)
      (machine.tick second.stepLimit)) (faults : first.faults = second.faults)
    (more : fuel ≤ supply) (tree : Node Hole) (machine : Machine) :
    SameUnless given (tree.execute first fuel machine) (tree.execute second supply machine) := by
  refine execute_coupled (sameUnless_coupling starved ticks) more tree ?_ (Or.inr rfl)
  refine everywhere_of_forall (fun node instruction machine other together => ?_) tree
  cases together.of_finished
  cases node with
  | block => cases instruction
  | loop => cases instruction
  | move | add | set | addTo | hole => exact Or.inr rfl
  | print | read =>
      rw [effect, effect, faults]
      exact Or.inr rfl

theorem execute_more_fuel {setup : Setup} (more : fuel ≤ supply) (tree : Node Hole)
    (machine : Machine) (fed : (tree.execute setup fuel machine).halt? ≠ some .outOfFuel) :
    tree.execute setup supply machine = tree.execute setup fuel machine := by
  have sameUnless : SameUnless (· = .outOfFuel) (tree.execute setup fuel machine)
      (tree.execute setup supply machine) :=
    execute_sameUnless (by rfl) (fun _ => Or.inr rfl) rfl more tree machine
  rcases sameUnless with ⟨halt, after, ended, rfl, _⟩ | same
  · rw [ended] at fed
    exact absurd rfl fed
  · exact same.symm

def CutShort (halt : Halt) : Prop :=
  halt = .outOfFuel ∨ ∃ most steps, halt = .stepLimit most steps

theorem execute_looser {faults : Faults} {limit wider : Option Int}
    (looser : ∀ most, wider = some most → ∃ least, limit = some least ∧ least ≤ most)
    (tree : Node Hole) (machine : Machine) :
    SameUnless CutShort (tree.execute ⟨faults, limit⟩ fuel machine)
      (tree.execute ⟨faults, wider⟩ fuel machine) := by
  refine execute_sameUnless (Or.inl rfl) (fun start => ?_) (by rfl) (Nat.le_refl fuel) tree machine
  rcases start.tick_cases limit with ⟨counted, allowed⟩ | ⟨most, _, _, exceeded⟩
  · rcases start.tick_cases wider with ⟨alsoCounted, _⟩ | ⟨most, wide, tooMany, _⟩
    · exact Or.inr (counted.trans alsoCounted.symm)
    · obtain ⟨least, narrow, order⟩ := looser most wide
      have within := allowed least narrow
      simp only at within
      omega
  · refine Or.inl ⟨_, _, exceeded, Or.inr ⟨_, _, rfl⟩, ?_⟩
    rw [start.machine_tick]
    exact .refl _

theorem execute_unlimited {faults : Faults} {limit : Option Int} (tree : Node Hole)
    (machine : Machine) (fed : (tree.execute ⟨faults, limit⟩ fuel machine).halt? ≠ some .outOfFuel)
    (free : ∀ most steps, (tree.execute ⟨faults, limit⟩ fuel machine).halt? ≠
      some (.stepLimit most steps)) :
    tree.execute ⟨faults, none⟩ fuel machine = tree.execute ⟨faults, limit⟩ fuel machine := by
  have sameUnless : SameUnless CutShort (tree.execute ⟨faults, limit⟩ fuel machine)
      (tree.execute ⟨faults, none⟩ fuel machine) :=
    execute_looser (fun _ wide => by cases wide) tree machine
  rcases sameUnless with ⟨halt, after, ended, rfl | ⟨most, steps, rfl⟩, _⟩ | same
  · rw [ended] at fed
    exact absurd rfl fed
  · have stopped := free most steps
    rw [ended] at stopped
    exact absurd rfl stopped
  · exact same.symm

theorem Ends.eventually {setup : Setup} {tree : Node Hole} {machine : Machine} {outcome : Outcome}
    (ends : tree.Ends setup machine outcome) :
    ∃ enough, ∀ fuel, enough ≤ fuel → tree.execute setup fuel machine = outcome := by
  obtain ⟨fed, enough, ran⟩ := ends
  refine ⟨enough, fun fuel more => ?_⟩
  rw [← ran]
  exact execute_more_fuel more tree machine (by rwa [ran])

theorem Ends.together {setup another : Setup} {tree other : Node Hole} {machine start : Machine}
    {outcome ending : Outcome} (ends : tree.Ends setup machine outcome)
    (also : other.Ends another start ending) :
    ∃ fuel, tree.execute setup fuel machine = outcome ∧
      other.execute another fuel start = ending := by
  obtain ⟨enough, ran⟩ := ends.eventually
  obtain ⟨supply, went⟩ := also.eventually
  exact ⟨max enough supply, ran _ (Nat.le_max_left enough supply),
    went _ (Nat.le_max_right enough supply)⟩

theorem Ends.unique {setup : Setup} {tree : Node Hole} {machine : Machine}
    {outcome ending : Outcome} (ends : tree.Ends setup machine outcome)
    (also : tree.Ends setup machine ending) : outcome = ending := by
  obtain ⟨fuel, ran, went⟩ := ends.together also
  rw [← ran, ← went]

/-! Fuel under a limit. -/

theorem effect_not_outOfFuel (setup : Setup) (fuel : Nat) {node : Node Hole}
    (instruction : node.IsInstruction) (machine : Machine) :
    (node.effect setup fuel machine).halt? ≠ some .outOfFuel := by
  intro starved
  rcases (effect_acts setup fuel instruction machine).halts starved with
    ⟨_, other⟩ | ⟨_, _, other⟩ | ⟨_, other⟩ <;> cases other

theorem rounds_fed {setup : Setup} {most : Int} (limited : setup.stepLimit = some most)
    {body : Node Hole} {bound : Int}
    (round : ∀ machine : Machine, bound < machine.steps →
      (body.execute setup supply machine).halt? ≠ some .outOfFuel) (fuel : Nat)
    (machine : Machine) (allowed : machine.Allowed setup.stepLimit)
    (late : bound < machine.steps) (enough : most < machine.steps + fuel) :
    (machine.rounds setup.stepLimit (body.execute setup supply) fuel).halt? ≠
      some .outOfFuel := by
  induction fuel generalizing machine with
  | zero =>
      have within := allowed most limited
      omega
  | succ fuel ih =>
      unfold Machine.rounds
      split
      · simp [Outcome.halt?]
      · rcases machine.tick_cases setup.stepLimit with ⟨counted, _⟩ | ⟨_, _, _, exceeded⟩
        · rw [counted, Outcome.next_finished]
          have fed := round { machine with steps := machine.steps + 1 } (by simp only; omega)
          cases ended : body.execute setup supply { machine with steps := machine.steps + 1 } with
          | finished after =>
              obtain ⟨later, allowedAfter⟩ := execute_finished ended
              simp only at later
              exact ih after allowedAfter (by omega) (by omega)
          | halted halt after => rwa [ended] at fed
        · rw [exceeded]
          simp [Outcome.halt?]

mutual

theorem effect_fed {setup : Setup} {most : Int} (limited : setup.stepLimit = some most)
    (tree : Node Hole) (machine : Machine) (allowed : machine.Allowed setup.stepLimit)
    (enough : most < machine.steps + fuel) :
    (tree.effect setup fuel machine).halt? ≠ some .outOfFuel := by
  match tree with
  | .block children => exact executeAll_fed limited children machine enough
  | .loop body =>
      have round (start : Machine) (late : most - fuel < start.steps) :
          (body.execute setup fuel start).halt? ≠ some .outOfFuel :=
        execute_fed limited body start (by omega)
      exact rounds_fed limited round fuel machine allowed (by omega) enough
  | .move _ | .add _ | .set _ | .print | .read | .addTo _ | .hole _ =>
      apply effect_not_outOfFuel
      trivial

theorem execute_fed {setup : Setup} {most : Int} (limited : setup.stepLimit = some most)
    (tree : Node Hole) (machine : Machine) (enough : most < machine.steps + fuel) :
    (tree.execute setup fuel machine).halt? ≠ some .outOfFuel := by
  rw [execute_eq]
  rcases machine.tick_cases setup.stepLimit with ⟨counted, allowed⟩ | ⟨_, _, _, exceeded⟩
  · rw [counted, Outcome.next_finished]
    exact effect_fed limited tree _ allowed (by simp only; omega)
  · rw [exceeded]
    simp [Outcome.halt?]

theorem executeAll_fed {setup : Setup} {most : Int} (limited : setup.stepLimit = some most)
    (nodes : List (Node Hole)) (machine : Machine) (enough : most < machine.steps + fuel) :
    (executeAll setup fuel nodes machine).halt? ≠ some .outOfFuel := by
  match nodes with
  | [] => simp [Outcome.halt?]
  | node :: rest =>
      rw [executeAll_cons]
      have fed := execute_fed limited node machine enough
      cases ended : node.execute setup fuel machine with
      | finished after =>
          have later := (execute_finished ended).1
          exact executeAll_fed limited rest after (by omega)
      | halted halt after => rwa [ended] at fed

end

theorem ends_of_limited {setup : Setup} {most : Int} (limited : setup.stepLimit = some most)
    (tree : Node Hole) (machine : Machine) (enough : most < machine.steps + fuel) :
    tree.Ends setup machine (tree.execute setup fuel machine) :=
  ⟨execute_fed limited tree machine enough, fuel, rfl⟩

end Node

end TapeTree
