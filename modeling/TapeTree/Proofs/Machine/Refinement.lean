import TapeTree.Proofs.Machine.Coupling
import TapeTree.Proofs.Machine.Flat
import TapeTree.Proofs.Machine.Partners
import TapeTree.Proofs.Tree.Grammar

/-! Running the tree of a source text is running its commands one by one. While a piece of the
tree runs, the flat machine goes through the commands that write it, one step for each step
counted. Only within a loop the count is ahead: the loop and the block in it have no commands of
their own, until the jump back and the skip at the end make up for them. -/

namespace TapeTree

open FlatMachine
open Command (StandsAt)

/-- The flat machine, going on from `flat`, does what the tree did from the step `base` on, and
is at `goal` if the tree finished. A step limit of the tree gives the flat machine a third. -/
def Outcome.Tracks (setup : Setup) (commands : List Command) (flat : FlatMachine)
    (base goal : Nat) : Outcome → Prop
  | .finished after => ∃ count later, Reaches setup.faults commands flat count later ∧
      later.Shows after ∧ later.position = goal ∧ after.steps = base + count
  | .halted (.fault cause) after => ∃ count later,
      flat.run? setup.faults commands count = some (.failed cause later) ∧ later.Shows after
  | .halted (.stepLimit most _) _ => setup.stepLimit = some most ∧
      ∀ count : Nat, 3 * count + base ≤ most → flat.run? setup.faults commands count = none
  | .halted .outOfFuel _ => True
  | .halted (.notByte _) _ => False
  | .halted .hole _ => False

namespace Outcome.Tracks

variable {setup : Setup} {commands : List Command} {flat later : FlatMachine}
  {base goal count : Nat}

theorem exceeded {most : Int} (limited : setup.stepLimit = some most) (tooLow : most < base + 3)
    (steps : Nat) (machine : Machine) :
    (Outcome.halted (.stepLimit most steps) machine).Tracks setup commands flat base goal := by
  refine ⟨limited, fun count enough => ?_⟩
  obtain rfl : count = 0 := by omega
  rfl

theorem halted_after {halt : Halt} {machine : Machine} {further other : Nat}
    (reaches : Reaches setup.faults commands flat count later)
    (tracks : (Outcome.halted halt machine).Tracks setup commands later further goal)
    (ahead : further ≤ base + 3 * count) :
    (Outcome.halted halt machine).Tracks setup commands flat base other := by
  cases halt with
  | fault cause =>
      obtain ⟨more, last, failed, shown⟩ := tracks
      refine ⟨count + more, last, ?_, shown⟩
      rw [reaches, failed]
  | stepLimit most steps =>
      obtain ⟨limited, running⟩ := tracks
      refine ⟨limited, fun total enough => ?_⟩
      rcases Nat.le_total total count with few | many
      · exact reaches.running few
      · obtain ⟨more, rfl⟩ := Nat.exists_eq_add_of_le many
        rw [reaches]
        apply running
        omega
  | outOfFuel => trivial
  | notByte | hole => exact tracks

theorem after {outcome : Outcome} (reaches : Reaches setup.faults commands flat count later)
    (tracks : outcome.Tracks setup commands later (base + count) goal) :
    outcome.Tracks setup commands flat base goal := by
  cases outcome with
  | finished machine =>
      obtain ⟨more, last, reached, shown, place, steps⟩ := tracks
      exact ⟨count + more, last, reaches.trans reached, shown, place, by omega⟩
  | halted halt machine => exact halted_after reaches tracks (by omega)

theorem next {outcome : Outcome} {rest : Machine → Outcome} {middle : Nat}
    (first : outcome.Tracks setup commands flat base middle)
    (others : ∀ machine later, later.position = middle → later.Shows machine →
      (rest machine).Tracks setup commands later machine.steps goal) :
    (outcome.next rest).Tracks setup commands flat base goal := by
  cases outcome with
  | finished machine =>
      obtain ⟨count, later, reaches, shown, place, steps⟩ := first
      have further := others machine later place shown
      rw [steps] at further
      exact further.after reaches
  | halted halt machine =>
      exact halted_after (Reaches.refl setup.faults commands flat) first (by omega)

end Outcome.Tracks

namespace Node

open TapeTree.Tree (nodeCommands? commands? childrenCommands?)

variable {setup : Setup} {fuel : Nat} {commands : List Command}

theorem skip_tracks {body : Tree} {inner : List Command} {base : Nat} {machine : Machine}
    {flat : FlatMachine}
    (stands : StandsAt commands flat.position (.openLoop :: (inner ++ [.closeLoop])))
    (written : commands? body = some inner) (shown : flat.Shows machine)
    (counted : machine.steps = base + 1) (zero : machine.tape.current = 0) :
    (Outcome.finished machine).Tracks setup commands flat base
      (flat.position + 1 + inner.length + 1) := by
  have skipped : flat.step setup.faults commands = _ :=
    step_skip stands.here (shown.current_eq_zero.mp zero) (stands.partnerAhead? written)
  exact ⟨1, _, .step skipped, shown.placed _, rfl, counted⟩

/-- A round is one run through the commands between the brackets, and the jump back. The loop has
been counted when its first bracket comes, so that the count is one ahead before and after. -/
theorem round_tracks {body : Tree} {inner : List Command} {base : Nat} {machine : Machine}
    {flat : FlatMachine}
    (stands : StandsAt commands flat.position (.openLoop :: (inner ++ [.closeLoop])))
    (written : commands? body = some inner)
    (inside : ∀ later start, later.position = flat.position + 1 → later.Shows start →
      (body.effect setup fuel start).Tracks setup commands later start.steps
        (flat.position + 1 + inner.length))
    (shown : flat.Shows machine) (counted : machine.steps = base + 1)
    (current : machine.tape.current ≠ 0) (goal : Nat) :
    let round := (machine.tick setup.stepLimit).next (body.execute setup fuel)
    (∃ after later count, round = .finished after ∧
      Reaches setup.faults commands flat count later ∧ later.Shows after ∧
      later.position = flat.position ∧ after.steps = base + count + 1) ∨
    ∃ halt after, round = .halted halt after ∧
      (Outcome.halted halt after).Tracks setup commands flat base goal := by
  simp only
  rcases machine.tick_cases setup.stepLimit with ⟨ticked, _⟩ | ⟨most, limited, low, stopped⟩
  · rw [ticked, Outcome.next_finished, execute_eq]
    rcases Machine.tick_cases setup.stepLimit { machine with steps := machine.steps + 1 } with
      ⟨again, _⟩ | ⟨most, limited, low, stopped⟩
    · rw [again, Outcome.next_finished]
      have enters : Reaches setup.faults commands flat 1 flat.advance :=
        .step (step_enter stands.here fun zero => current (shown.current_eq_zero.mpr zero))
      have tracks := inside flat.advance { machine with steps := machine.steps + 1 + 1 } rfl
        ((shown.placed _).counted _)
      cases ended : body.effect setup fuel { machine with steps := machine.steps + 1 + 1 } with
      | halted halt after =>
          -- three steps are counted for the one over the first bracket
          rw [ended] at tracks
          exact Or.inr ⟨halt, after, rfl, tracks.halted_after enters (by simp only; omega)⟩
      | finished after =>
          rw [ended] at tracks
          obtain ⟨count, later, reaches, met, place, steps⟩ := tracks
          simp only at steps
          have closing := stands.closing
          have behind := stands.partnerBehind? written
          rw [← place] at closing behind
          have back := (enters.trans reaches).trans (.step (step_back closing behind))
          exact Or.inl ⟨after, _, _, rfl, back, met.placed _, rfl, by omega⟩
    · rw [stopped]
      exact Or.inr ⟨_, _, rfl, .exceeded limited (by simp only at low; omega) _ _⟩
  · rw [stopped]
    exact Or.inr ⟨_, _, rfl, .exceeded limited (by omega) _ _⟩

theorem rounds_tracks {body : Tree} {inner : List Command} {position : Nat}
    (stands : StandsAt commands position (.openLoop :: (inner ++ [.closeLoop])))
    (written : commands? body = some inner)
    (inside : ∀ later start, later.position = position + 1 → later.Shows start →
      (body.effect setup fuel start).Tracks setup commands later start.steps
        (position + 1 + inner.length)) (supply base : Nat)
    (machine : Machine) (flat : FlatMachine) (place : flat.position = position)
    (shown : flat.Shows machine) (counted : machine.steps = base + 1) :
    (machine.rounds setup.stepLimit (body.execute setup fuel) supply).Tracks setup commands flat
      base (position + 1 + inner.length + 1) := by
  induction supply generalizing base machine flat with
  | zero =>
      unfold Machine.rounds
      split
      · rename_i zero
        subst place
        exact skip_tracks stands written shown counted zero
      · trivial
  | succ supply ih =>
      subst place
      unfold Machine.rounds
      split
      · rename_i zero
        exact skip_tracks stands written shown counted zero
      · rename_i current
        rcases round_tracks stands written inside shown counted current
            (flat.position + 1 + inner.length + 1) with
          ⟨after, later, count, ended, reaches, met, place, steps⟩ | ⟨halt, after, ended, tracks⟩
        · rw [ended, Outcome.next_finished]
          refine .after reaches ?_
          exact ih (base + count) after later place met steps
        · rw [ended, Outcome.next_halted]
          exact tracks

mutual

theorem execute_tracks (node : Tree) {code : List Command}
    (written : nodeCommands? node = some code) {flat : FlatMachine} {machine : Machine}
    (stands : StandsAt commands flat.position code) (shown : flat.Shows machine) :
    (node.execute setup fuel machine).Tracks setup commands flat machine.steps
      (flat.position + code.length) := by
  rw [execute_eq]
  rcases machine.tick_cases setup.stepLimit with ⟨ticked, _⟩ | ⟨most, limited, low, stopped⟩
  · rw [ticked, Outcome.next_finished]
    have shownTicked := shown.counted (machine.steps + 1)
    match node with
    | .loop body =>
        obtain ⟨inner, insideWritten, rfl⟩ := Tree.nodeCommands?_loop.mp written
        have length : flat.position + (Command.openLoop :: (inner ++ [.closeLoop])).length =
            flat.position + 1 + inner.length + 1 := by
          simp only [List.length_cons, List.length_append, List.length_nil]
          omega
        rw [length]
        refine rounds_tracks stands insideWritten (fun later start place met => ?_) fuel
          machine.steps _ flat rfl shownTicked rfl
        rw [← place]
        refine effect_tracks body insideWritten ?_ met
        rw [place]
        exact stands.inside
    | .move _ | .add _ | .set _ | .print | .read | .addTo _ | .hole _ | .block _ =>
        obtain ⟨command, rfl, found⟩ := Tree.instruction?_written written (by simp)
        rcases step_instruction setup fuel stands.here found shownTicked with
          ⟨later, after, stepped, place, done, met, steps⟩ |
          ⟨cause, later, after, failed, halted, met⟩
        · rw [done]
          exact ⟨1, later, .step stepped, met, place, steps⟩
        · rw [halted]
          exact ⟨1, later, by rw [run?, failed], met⟩
  · rw [stopped]
    exact .exceeded limited (by omega) _ _

theorem effect_tracks (tree : Tree) {code : List Command}
    (written : commands? tree = some code) {flat : FlatMachine} {machine : Machine}
    (stands : StandsAt commands flat.position code) (shown : flat.Shows machine) :
    (tree.effect setup fuel machine).Tracks setup commands flat machine.steps
      (flat.position + code.length) := by
  match tree with
  | .block children =>
      rw [commands?] at written
      exact executeAll_tracks children written stands shown
  | .move _ | .add _ | .set _ | .print | .read | .loop _ | .addTo _ | .hole _ =>
      simp [commands?] at written

theorem executeAll_tracks (nodes : List Tree) {code : List Command}
    (written : childrenCommands? nodes = some code) {flat : FlatMachine} {machine : Machine}
    (stands : StandsAt commands flat.position code) (shown : flat.Shows machine) :
    (executeAll setup fuel nodes machine).Tracks setup commands flat machine.steps
      (flat.position + code.length) := by
  match nodes with
  | [] =>
      rw [childrenCommands?, Option.some.injEq] at written
      rw [← written, executeAll_nil]
      exact ⟨0, flat, .refl _ _ _, shown, rfl, rfl⟩
  | node :: rest =>
      obtain ⟨first, others, firstWritten, restWritten, rfl⟩ :=
        Tree.childrenCommands?_cons.mp written
      rw [executeAll_cons, List.length_append, ← Nat.add_assoc]
      refine (execute_tracks node firstWritten stands.first shown).next ?_
      intro middle later place met
      rw [← place]
      refine executeAll_tracks rest restWritten ?_ met
      rw [place]
      exact stands.second

end

theorem execute_tracks_program (setup : Setup) (fuel : Nat) {tree : Tree}
    {program : List Command} (written : commands? tree = some program) {flat : FlatMachine}
    {machine : Machine}
    (start : flat.position = 0) (shown : flat.Shows machine) :
    (tree.execute setup fuel machine).Tracks setup program flat (machine.steps + 1)
      program.length := by
  rw [execute_eq]
  rcases machine.tick_cases setup.stepLimit with ⟨ticked, _⟩ | ⟨most, limited, low, stopped⟩
  · rw [ticked, Outcome.next_finished]
    have stands : StandsAt program flat.position program := by
      rw [start]
      exact .whole program
    have tracks : (tree.effect setup fuel { machine with steps := machine.steps + 1 }).Tracks setup
        program flat (machine.steps + 1) (flat.position + program.length) :=
      effect_tracks tree written stands (shown.counted (machine.steps + 1))
    rwa [start, Nat.zero_add] at tracks
  · rw [stopped]
    exact .exceeded limited (by omega) _ _

end Node

def FlatEnd.Shows : FlatEnd → Outcome → Prop
  | .finished flat, .finished machine => flat.Shows machine
  | .failed fault flat, .halted (.fault cause) machine => fault = cause ∧ flat.Shows machine
  | _, _ => False

theorem Outcome.Tracks.ends {setup : Setup} {program : List Command} {flat : FlatMachine}
    {base : Nat} {outcome : Outcome}
    (tracks : outcome.Tracks setup program flat base program.length)
    (fed : outcome.halt? ≠ some .outOfFuel)
    (free : ∀ most steps, outcome.halt? ≠ some (.stepLimit most steps)) :
    ∃ count ending, flat.run? setup.faults program count = some ending ∧
      ending.Shows outcome := by
  cases outcome with
  | finished machine =>
      obtain ⟨count, later, reaches, shown, place, _⟩ := tracks
      refine ⟨count + 1, .finished later, ?_, shown⟩
      rw [reaches, run?, step]
      simp [place]
  | halted halt machine =>
      cases halt with
      | fault cause =>
          obtain ⟨count, later, failed, shown⟩ := tracks
          exact ⟨count, .failed cause later, failed, rfl, shown⟩
      | stepLimit most steps => exact absurd rfl (free most steps)
      | outOfFuel => exact absurd rfl fed
      | notByte | hole => exact tracks.elim

theorem Outcome.Tracks.limited {setup : Setup} {program : List Command} {flat : FlatMachine}
    {base goal : Nat} {outcome : Outcome} (tracks : outcome.Tracks setup program flat base goal)
    {most : Int} {steps : Nat} (stopped : outcome.halt? = some (.stepLimit most steps)) :
    setup.stepLimit = some most ∧
      ∀ count : Nat, 3 * count + base ≤ most → flat.run? setup.faults program count = none := by
  cases outcome with
  | finished machine => cases stopped
  | halted halt machine =>
      cases stopped
      exact tracks

namespace Tree

open Command

variable {tree : Tree} {program : List Command} {flat : FlatMachine} {machine : Machine}

theorem run?_of_ends (written : commands? tree = some program) (start : flat.position = 0)
    (shown : flat.Shows machine) {faults : Faults} {outcome : Outcome}
    (ends : tree.Ends { faults } machine outcome) :
    ∃ count ending, flat.run? faults program count = some ending ∧ ending.Shows outcome := by
  obtain ⟨fed, fuel, rfl⟩ := ends
  have tracks := Node.execute_tracks_program { faults } fuel written start shown
  refine tracks.ends fed fun most steps stopped => ?_
  cases (tracks.limited stopped).1

theorem ends_of_run? (written : commands? tree = some program) (start : flat.position = 0)
    (shown : flat.Shows machine) {faults : Faults} {count : Nat} {ending : FlatEnd}
    (ended : flat.run? faults program count = some ending) :
    ∃ outcome, tree.Ends { faults } machine outcome ∧ ending.Shows outcome := by
  -- a limit that is exceeded only if the flat run takes more than `count` steps
  let limit : Int := 3 * count + (machine.steps + 1)
  have fed : (tree.execute { faults, stepLimit := some limit } (3 * count + 2) machine).halt? ≠
      some .outOfFuel :=
    Node.execute_fed rfl tree machine (by simp only [limit]; omega)
  have tracks := Node.execute_tracks_program { faults, stepLimit := some limit } (3 * count + 2)
    written start shown
  have free (most : Int) (steps : Nat) :
      (tree.execute { faults, stepLimit := some limit } (3 * count + 2) machine).halt? ≠
        some (.stepLimit most steps) := by
    intro stopped
    obtain ⟨limited, running⟩ := tracks.limited stopped
    cases limited
    have unended := running count (by simp only [limit]; omega)
    rw [ended] at unended
    cases unended
  obtain ⟨another, other, ran, matched⟩ := tracks.ends fed free
  refine ⟨_, ⟨fed, 3 * count + 2, Node.execute_unlimited tree machine fed free⟩, ?_⟩
  rwa [run?_unique ended ran]

theorem exceeds_of_running (written : commands? tree = some program) (start : flat.position = 0)
    (shown : flat.Shows machine) {faults : Faults}
    (forever : ∀ count, flat.run? faults program count = none) (limit : Int) :
    ∃ steps after, tree.Ends { faults, stepLimit := some limit } machine
      (.halted (.stepLimit limit steps) after) := by
  have fed : (tree.execute { faults, stepLimit := some limit } (limit.toNat + 1) machine).halt? ≠
      some .outOfFuel :=
    Node.execute_fed rfl tree machine (by omega)
  have tracks := Node.execute_tracks_program { faults, stepLimit := some limit } (limit.toNat + 1)
    written start shown
  by_cases stops : ∃ most steps,
      (tree.execute { faults, stepLimit := some limit } (limit.toNat + 1) machine).halt? =
        some (.stepLimit most steps)
  · obtain ⟨most, steps, stopped⟩ := stops
    cases (tracks.limited stopped).1
    cases ended : tree.execute { faults, stepLimit := some limit } (limit.toNat + 1) machine with
    | finished after =>
        rw [ended] at stopped
        cases stopped
    | halted halt after =>
        rw [ended] at fed stopped
        cases stopped
        exact ⟨steps, after, fed, limit.toNat + 1, ended⟩
  · obtain ⟨count, ending, ran, _⟩ := tracks.ends fed fun most steps stopped =>
      stops ⟨most, steps, stopped⟩
    rw [forever count] at ran
    cases ran

/-- What a source text does: its tree, run on a fresh machine, ends as its commands do, run one
by one with all loops closed at the end, and exceeds every step limit if they run forever. -/
theorem parse_refines_flat {source : String} {tree : Tree}
    (nested : NestedWithin 1000 (ofSource source)) (parsed : parse false source = .ok tree)
    (faults : Faults) (input : List UInt8) :
    let program := ofSource source ++ List.replicate (depth (ofSource source)).toNat .closeLoop
    let machine : Machine := { console := { input } }
    let flat : FlatMachine := { console := { input } }
    (∀ outcome, tree.Ends { faults } machine outcome →
      ∃ count ending, flat.run? faults program count = some ending ∧ ending.Shows outcome) ∧
    (∀ count ending, flat.run? faults program count = some ending →
      ∃ outcome, tree.Ends { faults } machine outcome ∧ ending.Shows outcome) ∧
    ((∀ count, flat.run? faults program count = none) →
      ∀ limit, ∃ steps after, tree.Ends { faults, stepLimit := some limit } machine
        (.halted (.stepLimit limit steps) after)) := by
  intro program machine flat
  have written : commands? tree = some program :=
    commands?_of_parse (nested.mono (by decide)) parsed
  have shown : flat.Shows machine := ⟨rfl, fun _ => by simp [machine, Tape.cellAt, flat], rfl⟩
  refine ⟨?_, ?_, ?_⟩
  · intro outcome ends
    exact run?_of_ends written rfl shown ends
  · intro count ending ended
    exact ends_of_run? written rfl shown ended
  · intro forever limit
    exact exceeds_of_running written rfl shown forever limit

theorem countdown_refines_flat :
    ∃ after, (.block [.read, .loop (.block [.print, .add 255])] : Tree).Ends {}
        { console := { input := [2] } } (.finished after) ∧
      after.console.output = #[2, 1] ∧ after.tape.current = 0 := by
  have commands : ofSource ", [.-" = [.read, .openLoop, .print, .decrement] := by decide
  have nested : NestedWithin 1000 (ofSource ", [.-") := by
    rw [commands, NestedWithin]
    simp [forall_start_cons, depth]
  have parsed : parse false ", [.-" = .ok (.block [.read, .loop (.block [.print, .add 255])]) := by
    rfl
  obtain ⟨_, flatEnds, _⟩ := parse_refines_flat nested parsed {} [2]
  rw [commands] at flatEnds
  obtain ⟨later, ran, output, zero⟩ : ∃ later,
      FlatMachine.run? {} [.read, .openLoop, .print, .decrement, .closeLoop] 12
        { console := { input := [2] } } = some (.finished later) ∧
      later.console.output = #[2, 1] ∧ later.current = 0 := ⟨_, rfl, rfl, rfl⟩
  obtain ⟨outcome, ends, matched⟩ := flatEnds 12 _ ran
  cases outcome with
  | halted => exact matched.elim
  | finished after =>
      exact ⟨after, ends, by rw [← matched.console, output], matched.current_eq_zero.mpr zero⟩

end Tree

end TapeTree
