import TapeTree.Proofs.Machine.Coupling
import TapeTree.Proofs.Machine.Resembling

/-! When one run can stand for another. A run that finishes or ends in a failing call is followed
to the same end, and one that is cut short is followed at least as far as its output goes. -/

namespace TapeTree

namespace Machine

/-- The same cells, all of them bytes, and the same console. The second machine has counted at
most `price` steps for each step of the first. -/
structure Matches (price : Nat) (machine other : Machine) : Prop where
  bytes : machine.tape.HoldsBytes
  alike : machine.tape.Alike other.tape
  console : machine.console = other.console
  steps : other.steps ≤ price * machine.steps

theorem Resembles.matches {price : Nat} {machine other : Machine}
    (resembles : machine.Resembles other) (steps : other.steps ≤ price * machine.steps) :
    machine.Matches price other :=
  ⟨resembles.bytes, resembles.alike, resembles.console, steps⟩

namespace Matches

theorem resembles {price : Nat} {machine other : Machine} (matched : Matches price machine other) :
    machine.Resembles other :=
  ⟨matched.bytes, matched.alike, matched.console⟩

theorem trans {price factor : Nat} {first second third : Machine}
    (left : Matches price first second) (right : Matches factor second third) :
    Matches (price * factor) first third where
  bytes := left.bytes
  alike := left.alike.trans right.alike
  console := left.console.trans right.console
  steps := by
    calc third.steps ≤ factor * second.steps := right.steps
      _ ≤ factor * (price * first.steps) := Nat.mul_le_mul_left factor left.steps
      _ = price * factor * first.steps := by rw [← Nat.mul_assoc, Nat.mul_comm factor price]

theorem output {price : Nat} {machine other : Machine} (matched : Matches price machine other) :
    machine.console.output = other.console.output := by
  rw [matched.console]

theorem count {price : Nat} (positive : 0 < price) {machine other : Machine}
    (matched : Matches price machine other) :
    Matches price { machine with steps := machine.steps + 1 }
      { other with steps := other.steps + 1 } where
  bytes := matched.bytes
  alike := matched.alike
  console := matched.console
  steps := by
    have steps := matched.steps
    simp only [Nat.mul_add, Nat.mul_one]
    omega

end Matches

end Machine

namespace Outcome

theorem halt?_ne_outOfFuel {outcome : Outcome} {cause : Option IoFault}
    (own : outcome.halt? = cause.map Halt.fault) : outcome.halt? ≠ some .outOfFuel := by
  rw [own]
  cases cause <;> simp

def FollowedBy (price : Nat) : Outcome → Outcome → Prop
  | .finished machine, ending => ∃ other, ending = .finished other ∧ machine.Matches price other
  | .halted (.fault cause) machine, ending =>
      ∃ other, ending = .halted (.fault cause) other ∧ machine.Matches price other
  | .halted _ machine, ending =>
      machine.console.output.toList <+: ending.machine.console.output.toList

namespace FollowedBy

theorem finished {price : Nat} {machine other : Machine} (matched : machine.Matches price other) :
    FollowedBy price (.finished machine) (.finished other) :=
  ⟨other, rfl, matched⟩

theorem matches_of_finished {price : Nat} {machine other : Machine}
    (followed : FollowedBy price (.finished machine) (.finished other)) :
    machine.Matches price other := by
  obtain ⟨_, ⟨⟩, matched⟩ := followed
  exact matched

theorem matches_of_end {price : Nat} {outcome ending : Outcome}
    (followed : FollowedBy price outcome ending) {cause : Option IoFault}
    (own : outcome.halt? = cause.map Halt.fault) :
    ending.halt? = cause.map Halt.fault ∧ outcome.machine.Matches price ending.machine := by
  cases outcome with
  | finished machine =>
      obtain ⟨other, rfl, matched⟩ := followed
      exact ⟨own, matched⟩
  | halted halt machine =>
      cases cause with
      | none => cases own
      | some cause =>
          cases own
          obtain ⟨other, rfl, matched⟩ := followed
          exact ⟨rfl, matched⟩

theorem output {price : Nat} {outcome ending : Outcome}
    (followed : FollowedBy price outcome ending) :
    outcome.machine.console.output.toList <+: ending.machine.console.output.toList := by
  unfold FollowedBy at followed
  split at followed
  · obtain ⟨_, rfl, matched⟩ := followed
    simp [matched.output]
  · obtain ⟨_, rfl, matched⟩ := followed
    simp [matched.output]
  · exact followed

theorem of_output {price : Nat} {halt : Halt} (cut : ∀ cause, halt ≠ .fault cause)
    {machine : Machine} {ending : Outcome}
    (output : machine.console.output.toList <+: ending.machine.console.output.toList) :
    FollowedBy price (.halted halt machine) ending := by
  cases halt with
  | fault cause => exact absurd rfl (cut cause)
  | notByte | stepLimit | hole | outOfFuel => exact output

theorem of_matches {price : Nat} {halt : Halt} {machine other : Machine}
    (matched : machine.Matches price other) :
    FollowedBy price (.halted halt machine) (.halted halt other) := by
  cases halt with
  | fault cause => exact ⟨other, rfl, matched⟩
  | notByte | stepLimit | hole | outOfFuel => simp [FollowedBy, matched.output]

theorem trans {price factor : Nat} {first second third : Outcome}
    (left : FollowedBy price first second) (right : FollowedBy factor second third) :
    FollowedBy (price * factor) first third := by
  have further := right.output
  unfold FollowedBy at left ⊢
  split at left
  · obtain ⟨_, rfl, matched⟩ := left
    obtain ⟨last, rfl, again⟩ := right
    exact ⟨last, rfl, matched.trans again⟩
  · obtain ⟨_, rfl, matched⟩ := left
    obtain ⟨last, rfl, again⟩ := right
    exact ⟨last, rfl, matched.trans again⟩
  · exact left.trans further

theorem next {price : Nat} {outcome ending : Outcome} {rest others : Machine → Outcome}
    (followed : FollowedBy price outcome ending)
    (onward : ∀ machine other, machine.Matches price other →
      FollowedBy price (rest machine) (others other))
    (later : ∀ other : Machine, other.Precedes (others other).machine) :
    FollowedBy price (outcome.next rest) (ending.next others) := by
  have output := followed.output
  have outputLater : ending.machine.console.output.toList <+:
      (ending.next others).machine.console.output.toList := by
    cases ending with
    | finished other => exact (later other).output
    | halted => exact List.prefix_refl _
  cases outcome with
  | finished machine =>
      obtain ⟨other, rfl, matched⟩ := followed
      exact onward machine other matched
  | halted halt machine =>
      cases halt with
      | fault cause =>
          obtain ⟨other, rfl, matched⟩ := followed
          exact ⟨other, rfl, matched⟩
      | notByte | stepLimit | hole | outOfFuel => exact output.trans outputLater

end FollowedBy

theorem Resembles.followedBy {price : Nat} {outcome ending : Outcome}
    (resembles : outcome.Resembles ending)
    (steps : ending.machine.steps ≤ price * outcome.machine.steps) :
    outcome.FollowedBy price ending := by
  cases outcome with
  | finished machine =>
      cases ending with
      | finished other => exact .finished (Machine.Resembles.matches resembles steps)
      | halted => cases resembles
  | halted halt machine =>
      cases ending with
      | finished => cases resembles
      | halted reason other =>
          obtain ⟨rfl, same⟩ := resembles
          exact .of_matches (same.matches steps)

end Outcome

def Setup.scaled (price : Nat) (setup : Setup) : Setup :=
  { setup with stepLimit := setup.stepLimit.map (price * ·) }

theorem Setup.scaled_one (setup : Setup) : setup.scaled 1 = setup := by
  rcases setup with ⟨faults, _ | limit⟩ <;> simp [scaled]

namespace Machine

theorem Matches.tick {price : Nat} (positive : 0 < price) (setup : Setup)
    {machine other : Machine} (matched : machine.Matches price other) :
    (machine.tick setup.stepLimit).FollowedBy price
      (other.tick (setup.scaled price).stepLimit) := by
  rcases machine.tick_cases setup.stepLimit with ⟨counted, allowed⟩ | ⟨_, _, _, exceeded⟩
  · rw [counted]
    rcases other.tick_cases (setup.scaled price).stepLimit with
      ⟨alsoCounted, _⟩ | ⟨most, limited, tooLow, _⟩
    · rw [alsoCounted]
      exact .finished (matched.count positive)
    · -- the second limit leaves room for every step that the first one allows
      obtain ⟨limit, some, rfl⟩ := Option.map_eq_some_iff.mp limited
      have within := allowed limit some
      have steps := (matched.count positive).steps
      have scaledWithin : (price : Int) * ((machine.steps + 1 : Nat) : Int) ≤ price * limit :=
        Int.mul_le_mul_of_nonneg_left within (Int.natCast_nonneg price)
      simp only at steps
      omega
  · rw [exceeded]
    refine .of_output (by simp) ?_
    rw [matched.output]
    exact (tick_precedes _ other).output

end Machine

theorem followedBy_coupling {price : Nat} (positive : 0 < price) (setup : Setup) :
    Coupling setup (setup.scaled price) (Outcome.FollowedBy price) where
  tick := fun followed => followed.matches_of_finished.tick positive setup
  current := fun followed => by rw [followed.matches_of_finished.alike.current]
  next := fun followed onward later =>
    followed.next (fun machine other matched => onward machine other (.finished matched)) later
  starved := by
    intro machine other ending followed later
    refine .of_output (by simp) ?_
    rw [followed.matches_of_finished.output]
    exact later.output

theorem Machine.rounds_followedBy {limit : Option Int} {body : Machine → Outcome}
    {ending : Outcome} (invariant : Machine → Prop)
    (leave : ∀ machine : Machine, invariant machine → machine.tape.current = 0 →
      Outcome.FollowedBy 1 (.finished machine) ending)
    (output : ∀ machine : Machine, invariant machine →
      machine.console.output.toList <+: ending.machine.console.output.toList)
    (round : ∀ machine : Machine, invariant machine → machine.tape.current ≠ 0 →
      (∃ after, body { machine with steps := machine.steps + 1 } = .finished after ∧
        invariant after) ∨
      ∃ halt after, body { machine with steps := machine.steps + 1 } = .halted halt after ∧
        Outcome.FollowedBy 1 (.halted halt after) ending)
    (fuel : Nat) {machine : Machine} (start : invariant machine) :
    (machine.rounds limit body fuel).FollowedBy 1 ending := by
  induction fuel generalizing machine with
  | zero =>
      by_cases zero : machine.tape.current = 0
      · simpa only [rounds, zero, if_true] using leave machine start zero
      · simp only [rounds, zero, if_false]
        exact .of_output (by simp) (output machine start)
  | succ fuel ih =>
      by_cases zero : machine.tape.current = 0
      · simpa only [rounds, zero, if_true] using leave machine start zero
      · simp only [rounds, zero, if_false]
        rcases machine.tick_cases limit with ⟨counted, _⟩ | ⟨_, _, _, exceeded⟩
        · rw [counted, Outcome.next_finished]
          rcases round machine start zero with ⟨after, ended, kept⟩ | ⟨halt, after, ended, followed⟩
          · rw [ended, Outcome.next_finished]
            exact ih kept
          · rw [ended]
            exact followed
        · rw [exceeded]
          exact .of_output (by simp) (output machine start)

namespace Node

variable {Hole : Type}

theorem effect_followedBy {price : Nat} (setup : Setup) (fuel : Nat) {node : Node Hole}
    (instruction : node.IsInstruction) (sets : node.SetsBytes) {machine other : Machine}
    (matched : machine.Matches price other) :
    (node.effect setup fuel machine).FollowedBy price
      (node.effect (setup.scaled price) fuel other) := by
  have same : (node.effect setup fuel machine).Resembles
      (node.effect (setup.scaled price) fuel other) :=
    effect_resembles (by rfl) fuel fuel instruction sets matched.resembles
  have steps := matched.steps
  refine same.followedBy ?_
  rwa [steps_effect _ _ instruction, steps_effect _ _ instruction]

theorem executeAll_followedBy {price : Nat} (positive : 0 < price) (setup : Setup) (fuel : Nat)
    (nodes : List (Node Hole)) (sets : EverywhereAll SetsByte nodes) {machine other : Machine}
    (matched : machine.Matches price other) :
    (executeAll setup fuel nodes machine).FollowedBy price
      (executeAll (setup.scaled price) fuel nodes other) := by
  refine executeAll_coupled (followedBy_coupling positive setup) (Nat.le_refl fuel) nodes ?_
    (.finished matched)
  refine EverywhereAll.mono (fun node sets instruction machine other followed => ?_) nodes sets
  refine effect_followedBy setup fuel instruction ?_ followed.matches_of_finished
  exact (everywhere_iff_of_isInstruction instruction).mpr sets

/-- Runs of the second sequence can stand for runs of the first. -/
def RefinedBy (nodes others : List (Node Hole)) : Prop :=
  ∀ (setup : Setup) (fuel : Nat) (machine other : Machine), machine.Matches 1 other →
    (executeAll setup fuel nodes machine).FollowedBy 1 (executeAll setup fuel others other)

namespace RefinedBy

theorem refl {nodes : List (Node Hole)} (sets : EverywhereAll SetsByte nodes) :
    RefinedBy nodes nodes := by
  intro setup fuel machine other matched
  have followed := executeAll_followedBy Nat.one_pos setup fuel nodes sets matched
  rwa [setup.scaled_one] at followed

theorem trans {first second third : List (Node Hole)}
    (left : RefinedBy first second) (right : RefinedBy second third) :
    RefinedBy first third := by
  intro setup fuel machine other matched
  have same : other.Matches 1 other :=
    ⟨matched.bytes.alike matched.alike, .refl _, rfl, by omega⟩
  exact (left setup fuel machine other matched).trans (right setup fuel other other same)

theorem append {nodes others rest further : List (Node Hole)}
    (front : RefinedBy nodes others) (back : RefinedBy rest further) :
    RefinedBy (nodes ++ rest) (others ++ further) := by
  intro setup fuel machine other matched
  rw [executeAll_append, executeAll_append]
  exact (front setup fuel machine other matched).next (back setup fuel)
    (executeAll_precedes setup fuel further)

theorem of_effect {node : Node Hole} {others : List (Node Hole)}
    (stands : ∀ (setup : Setup) (fuel : Nat) (machine other : Machine), machine.Matches 1 other →
      (node.effect setup fuel machine).FollowedBy 1 (executeAll setup fuel others other)) :
    RefinedBy [node] others := by
  intro setup fuel machine other matched
  rw [executeAll_singleton, execute_eq]
  have spare : (machine.tick setup.stepLimit).FollowedBy 1 (.finished other) := by
    rcases machine.tick_cases setup.stepLimit with ⟨counted, _⟩ | ⟨_, _, _, exceeded⟩
    · rw [counted]
      have steps := matched.steps
      exact .finished ⟨matched.bytes, matched.alike, matched.console, by simp only; omega⟩
    · rw [exceeded]
      exact .of_output (by simp) (by simp [matched.output])
  exact spare.next (stands setup fuel) (executeAll_precedes setup fuel others)

theorem of_effects {node another : Node Hole}
    (stands : ∀ (setup : Setup) (fuel : Nat) (machine other : Machine), machine.Matches 1 other →
      (node.effect setup fuel machine).FollowedBy 1 (another.effect setup fuel other)) :
    RefinedBy [node] [another] := by
  intro setup fuel machine other matched
  rw [executeAll_singleton, executeAll_singleton, execute_eq, execute_eq]
  have ticked := matched.tick Nat.one_pos setup
  rw [setup.scaled_one] at ticked
  exact ticked.next (stands setup fuel) (effect_precedes setup fuel another)

theorem block {nodes others : List (Node Hole)} (refined : RefinedBy nodes others) :
    RefinedBy [.block nodes] [.block others] :=
  of_effects refined

theorem unblock {nodes others : List (Node Hole)} (refined : RefinedBy nodes others) :
    RefinedBy [.block nodes] others :=
  of_effect refined

theorem loop {body another : Node Hole} (refined : RefinedBy [body] [another]) :
    RefinedBy [.loop body] [.loop another] := by
  refine of_effects fun setup fuel machine other matched => ?_
  have coupling := followedBy_coupling Nat.one_pos setup
  rw [setup.scaled_one] at coupling
  refine coupling.rounds (fun machine other followed => ?_) (execute_precedes setup fuel another)
    (Nat.le_refl fuel) (.finished matched)
  have round := refined setup fuel machine other followed.matches_of_finished
  rwa [executeAll_singleton, executeAll_singleton] at round

theorem loop_nil {body : Node Hole} (refined : RefinedBy [body] []) :
    RefinedBy [.loop body] [] := by
  refine of_effect fun setup fuel machine other matched => ?_
  rw [executeAll_nil]
  refine Machine.rounds_followedBy (fun machine => machine.Matches 1 other)
    (fun machine matched _ => .finished matched) (fun machine matched => ?_)
    (fun machine matched _ => ?_) fuel matched
  · simp [matched.output]
  · have steps := matched.steps
    have round := refined setup fuel { machine with steps := machine.steps + 1 } other
      ⟨matched.bytes, matched.alike, matched.console, by simp only; omega⟩
    rw [executeAll_singleton, executeAll_nil] at round
    cases ended : body.execute setup fuel { machine with steps := machine.steps + 1 } with
    | finished after =>
        rw [ended] at round
        exact Or.inl ⟨after, rfl, round.matches_of_finished⟩
    | halted halt after =>
        rw [ended] at round
        exact Or.inr ⟨halt, after, rfl, round⟩

end RefinedBy

end Node

end TapeTree
