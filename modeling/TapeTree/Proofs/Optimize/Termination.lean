import TapeTree.Proofs.Machine.Restoring
import TapeTree.Proofs.Optimize.Sound

/-! A pass makes a run end that did not end before only if it erases a loop. The loops that it
replaces all end, since they count a byte up or down to zero. -/

namespace TapeTree.Node

variable {Hole : Type}

def roundsLeft (amount value : Int) : Nat :=
  ((-(amount * value)) % cellSize).toNat

theorem roundsLeft_le (amount value : Int) : roundsLeft amount value ≤ mostRounds := by
  have small := (inside_cell (-(amount * value))).2
  simp only [roundsLeft, mostRounds, cellSize] at small ⊢
  omega

theorem roundsLeft_zero (amount : Int) : roundsLeft amount 0 = 0 := by
  simp [roundsLeft]

theorem roundsLeft_step {amount value : Int} (single : amount = 1 ∨ amount = cellSize - 1)
    (byte : 0 ≤ value ∧ value < cellSize) (more : value ≠ 0) :
    roundsLeft amount ((value + amount) % cellSize) + 1 = roundsLeft amount value := by
  rcases single with rfl | rfl
  · simp only [roundsLeft, cellSize] at byte ⊢
    omega
  · simp only [roundsLeft, cellSize] at byte ⊢
    omega

/-- A loop that a node stands for ends where the node leads to, once its count is down. -/
theorem StandsFor.loop_finishes {stand body : Node Hole} (stands : StandsFor stand body)
    {amount : Int} (single : amount = 1 ∨ amount = cellSize - 1)
    (counts : ∀ tape : Tape, (body.reshape tape).current = (tape.current + amount) % cellSize)
    (faults : Faults) {fuel : Nat} (enough : mostRounds ≤ fuel) {machine : Machine}
    (bytes : machine.tape.HoldsBytes) :
    ∃ after, (Node.loop body).execute { faults } fuel machine = .finished after ∧
      after.tape.Alike (stand.reshape machine.tape) ∧ after.console = machine.console ∧
      after.steps =
        machine.steps + 1 + roundsLeft amount machine.tape.current * (1 + body.size) := by
  obtain ⟨after, ended, ⟨bytesAfter, alike⟩, zero, console, steps⟩ :=
    @rounds_silent_finish Hole faults fuel body stands.silent
      (fun tape => tape.HoldsBytes ∧ (stand.reshape tape).Alike (stand.reshape machine.tape))
      (fun tape => roundsLeft amount tape.current) (by
        rintro tape ⟨bytes, alike⟩ more
        refine ⟨⟨reshape_holdsBytes body stands.sets bytes, (stands.absorbed tape).trans alike⟩, ?_⟩
        rw [counts]
        exact roundsLeft_step single (bytes.cellAt tape.pointer) more)
      (fun tape zero => by rw [zero, roundsLeft_zero])
      fuel { machine with steps := machine.steps + 1 } ⟨bytes, .refl _⟩
      (Nat.le_trans (roundsLeft_le _ _) enough)
  have passed := stands.passed after.tape bytesAfter zero
  rw [execute_eq]
  exact ⟨after, ended, passed.symm.trans alike, console, steps⟩

theorem StandsFor.restores {stand body : Node Hole} (stands : StandsFor stand body)
    (sets : stand.SetsBytes) : Restores [.loop body] [stand] := by
  intro faults fuel enough machine other resembles
  obtain ⟨amount, single, counts⟩ := stands.counts
  have bytes := resembles.bytes.alike resembles.alike
  have once := (execute_silent { faults } fuel stand stands.alsoSilent
    machine).finished_of_allowed (by simp)
  obtain ⟨after, ended, alike, console, _⟩ :=
    stands.loop_finishes single counts faults enough bytes
  have reshaped := reshape_alike stand resembles.alike
  rw [executeAll_singleton, executeAll_singleton, once, ended]
  refine .finished ⟨reshape_holdsBytes stand sets resembles.bytes, reshaped.trans alike.symm, ?_⟩
  rw [console]
  exact resembles.console

theorem Rewrites.restores {nodes others : List Tree} (rewrites : Rewrites False nodes others)
    (sets : EverywhereAll SetsByte nodes) : Restores nodes others := by
  have kept {nodes others : List Tree} (rewrites : Rewrites False nodes others) :=
    rewrites.everywhereAll setsByte_maintained
  induction rewrites with
  | refl => exact .refl sets
  | trans front _ left right => exact (left sets).trans (right (kept front sets))
  | append _ _ front back =>
      rw [everywhereAll_append] at sets
      exact (front sets.1).append (back sets.2)
  | block _ inside => exact (inside sets.1.2).block
  | loop _ inside => exact (inside ⟨sets.1.2, trivial⟩).loop
  | unblock => exact (Restores.refl sets.1.2).unblock
  | idle idle => exact .silent (idle_sameShape idle) trivial
  | hole mark => exact mark.elim
  | merged found => exact .silent (merged_sameShape found) (kept (.merged found) sets)
  | erased never => exact never.elim
  | cleared clearing =>
      exact (clears_standsFor clearing).restores (kept (.cleared clearing) sets).1
  | transferred found active =>
      have stands := transfer?_standsFor found (leadsAway_of_active found active)
      exact stands.restores (kept (.transferred found active) sets).1

/-- The run of what is left of a tree ends with this outcome. Nothing left means nothing to do. -/
def LeftEnds (setup : Setup) (left : Option (Node Hole)) (machine : Machine)
    (outcome : Outcome) : Prop :=
  match left with
  | none => outcome = .finished machine
  | some tree => tree.Ends setup machine outcome

theorem leftEnds_iff {setup : Setup} {left : Option (Node Hole)} {machine : Machine}
    {outcome : Outcome} (fed : outcome.halt? ≠ some .outOfFuel) (least : Nat) :
    LeftEnds setup left machine outcome ↔
      ∃ fuel, least ≤ fuel ∧ executeAll setup fuel left.toList machine = outcome := by
  cases left with
  | none =>
      rw [LeftEnds, Option.toList_none]
      constructor
      · intro nothing
        exact ⟨least, Nat.le_refl least, by rw [executeAll_nil, nothing]⟩
      · rintro ⟨fuel, _, ran⟩
        rw [← ran, executeAll_nil]
  | some tree =>
      rw [LeftEnds, Option.toList_some]
      constructor
      · rintro ⟨_, fuel, ran⟩
        refine ⟨max fuel least, Nat.le_max_right fuel least, ?_⟩
        rw [executeAll_singleton, ← ran]
        exact execute_more_fuel (Nat.le_max_left fuel least) tree machine (by rwa [ran])
      · rintro ⟨fuel, _, ran⟩
        rw [executeAll_singleton] at ran
        exact ⟨fed, fuel, ran⟩

/-- Without erased loops, a pass changes neither whether a run ends nor how. -/
theorem optimize_ends_iff (faults : Faults) (tree : Tree) (sets : tree.SetsBytes)
    (kept : tree.Everywhere KeepsLoop) (machine : Machine) (bytes : machine.tape.HoldsBytes)
    (cause : Option IoFault) :
    (∃ outcome, tree.Ends { faults } machine outcome ∧ outcome.halt? = cause.map Halt.fault) ↔
      ∃ outcome, LeftEnds { faults } (optimize tree) machine outcome ∧
        outcome.halt? = cause.map Halt.fault := by
  have rewrites : Rewrites False [tree] (optimize tree).toList :=
    optimize_rewrites tree (kept.mono fun _ => Or.inr)
  have setsTree : EverywhereAll SetsByte [tree] := ⟨sets, trivial⟩
  have setsForm := rewrites.everywhereAll setsByte_maintained setsTree
  constructor
  · rintro ⟨outcome, ⟨_, fuel, ran⟩, own⟩
    have followed := (rewrites.improves setsTree).followedBy setsTree setsForm { faults } fuel
      (show machine.Matches 4 machine from ⟨bytes, .refl _, rfl, by omega⟩)
    rw [executeAll_singleton, ran] at followed
    have sameEnd := (followed.matches_of_end own).1
    have fed := Outcome.halt?_ne_outOfFuel sameEnd
    exact ⟨_, (leftEnds_iff fed 0).mpr ⟨fuel, Nat.zero_le fuel, rfl⟩, sameEnd⟩
  · rintro ⟨outcome, ends, own⟩
    have fed := Outcome.halt?_ne_outOfFuel own
    obtain ⟨fuel, enough, ran⟩ := (leftEnds_iff fed mostRounds).mp ends
    have like := rewrites.restores setsTree faults fuel enough machine machine (.refl bytes)
    rw [executeAll_singleton, ran] at like
    have sameEnd := like.halt? own
    exact ⟨_, ⟨Outcome.halt?_ne_outOfFuel sameEnd, fuel, rfl⟩, sameEnd⟩

theorem counting_up_ends :
    ∃ outcome, (.block [.loop (.add 1), .read] : Tree).Ends {}
      { tape := ({} : Tape).setCurrent 3 } outcome ∧
        outcome.halt? = some (.fault .endOfInput) := by
  have bytes : (({} : Tape).setCurrent 3).HoldsBytes := Tape.HoldsBytes.blank.setCurrent (by decide)
  have sets : (.block [.loop (.add 1), .read] : Tree).SetsBytes := by
    simp [SetsBytes, Everywhere, EverywhereAll, SetsByte]
  have kept : (.block [.loop (.add 1), .read] : Tree).Everywhere KeepsLoop := by
    simp [Everywhere, EverywhereAll, KeepsLoop, optimize]
  refine (optimize_ends_iff {} _ sets kept _ bytes (some .endOfInput)).mpr ?_
  have replaced : optimize (.block [.loop (.add 1), .read] : Tree) =
      some (.block [.set 0, .read]) := by
    decide
  rw [replaced]
  refine ⟨(.block [.set 0, .read] : Tree).execute {} 0 { tape := ({} : Tape).setCurrent 3 },
    ⟨?_, 0, rfl⟩, ?_⟩ <;>
  simp [execute_eq, effect, executeAll_cons, Machine.tick, Machine.setCurrent, Machine.read,
    Console.read, Outcome.halt?]

end TapeTree.Node
