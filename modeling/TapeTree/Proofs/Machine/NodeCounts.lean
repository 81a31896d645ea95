import TapeTree.Proofs.Machine.Coupling
import TapeTree.Proofs.Tree.Joining

/-! The number of nodes of a tree. The commands of a source text tell that of its tree, and where
there are no loops it is the number of steps of a run that finishes. -/

namespace TapeTree

namespace Command

def isBracket : Command → Bool
  | openLoop | closeLoop => true
  | _ => false

/-- How many nodes of a block the commands make: one each, and two for a loop, which has a block
of its own. -/
def nodeCount (commands : List Command) : Nat :=
  commands.countP (fun command => !command.isBracket) + 2 * commands.count .openLoop

theorem nodeCount_append (first second : List Command) :
    nodeCount (first ++ second) = nodeCount first + nodeCount second := by
  simp only [nodeCount, List.countP_append, List.count_append]
  omega

theorem nodeCount_loop (inner : List Command) :
    nodeCount (.openLoop :: (inner ++ [.closeLoop])) = 2 + nodeCount inner := by
  have brackets : nodeCount [.openLoop] = 2 ∧ nodeCount [.closeLoop] = 0 := ⟨rfl, rfl⟩
  rw [← List.singleton_append, nodeCount_append, nodeCount_append, brackets.1, brackets.2,
    Nat.add_zero]

theorem nodeCount_closing (count : Nat) : nodeCount (List.replicate count .closeLoop) = 0 := by
  induction count with
  | zero => rfl
  | succ count ih =>
      rw [List.replicate_succ, ← List.singleton_append, nodeCount_append, ih]
      rfl

end Command

namespace Tree

open Command Node

theorem size_instruction {command : Command} {node : Tree}
    (found : instruction? command = some node) : node.size = nodeCount [command] := by
  cases command <;> cases found <;> rfl

mutual

theorem size_node (node : Tree) {code : List Command} (written : nodeCommands? node = some code) :
    node.size = nodeCount code := by
  match node with
  | .loop body =>
      obtain ⟨inner, insideWritten, rfl⟩ := nodeCommands?_loop.mp written
      rw [size, size_tree body insideWritten, nodeCount_loop]
      omega
  | .move _ | .add _ | .set _ | .print | .read | .addTo _ | .hole _ | .block _ =>
      obtain ⟨command, rfl, found⟩ := instruction?_written written (by simp)
      exact size_instruction found

theorem size_tree (tree : Tree) {code : List Command} (written : commands? tree = some code) :
    tree.size = 1 + nodeCount code := by
  match tree with
  | .block children =>
      rw [commands?] at written
      rw [size, size_children children written]
  | .move _ | .add _ | .set _ | .print | .read | .loop _ | .addTo _ | .hole _ =>
      simp [commands?] at written

theorem size_children (nodes : List Tree) {code : List Command}
    (written : childrenCommands? nodes = some code) : sizeAll nodes = nodeCount code := by
  match nodes with
  | [] =>
      rw [childrenCommands?, Option.some.injEq] at written
      rw [← written]
      rfl
  | node :: rest =>
      obtain ⟨first, others, firstWritten, restWritten, rfl⟩ := childrenCommands?_cons.mp written
      rw [sizeAll, size_node node firstWritten, size_children rest restWritten, nodeCount_append]

end

/-- Brackets that close loops make no node, so those that the text leaves out are not missed. -/
theorem size_of_parse {strict : Bool} {source : String} {tree : Tree}
    (parsed : parse strict source = .ok tree) : tree.size = 1 + nodeCount (ofSource source) := by
  have written := commands?_of_parse (nestedWithin_of_parse parsed) parsed
  rw [size_tree tree written, nodeCount_append, nodeCount_closing, Nat.add_zero]

end Tree

/-! Runs without loops. -/

structure Outcome.Takes (count start : Nat) (outcome : Outcome) : Prop where
  fed : outcome.halt? ≠ some .outOfFuel
  most : outcome.machine.steps ≤ start + count
  finished : outcome.halt? = none → outcome.machine.steps = start + count

theorem Outcome.Takes.next {count more start : Nat} {first : Outcome} {rest : Machine → Outcome}
    (takes : first.Takes count start)
    (others : ∀ middle : Machine, (rest middle).Takes more middle.steps) :
    (first.next rest).Takes (count + more) start := by
  cases first with
  | finished middle =>
      have here : middle.steps = start + count := takes.finished rfl
      have later := others middle
      rw [here] at later
      refine ⟨later.fed, ?_, fun done => ?_⟩
      · rw [← Nat.add_assoc]
        exact later.most
      · rw [← Nat.add_assoc]
        exact later.finished done
  | halted halt after =>
      refine ⟨takes.fed, Nat.le_trans takes.most (by omega), ?_⟩
      intro done
      cases done

theorem Machine.tick_takes (machine : Machine) : (machine.tick none).Takes 1 machine.steps :=
  ⟨by simp [tick, Outcome.halt?], Nat.le_refl _, fun _ => rfl⟩

namespace Node

variable {Hole : Type}

def IsNoLoop : Node Hole → Prop
  | .loop _ => False
  | _ => True

theorem effect_takes (setup : Setup) (fuel : Nat) {node : Node Hole}
    (instruction : node.IsInstruction) (machine : Machine) :
    (node.effect setup fuel machine).Takes 0 machine.steps := by
  have same := steps_effect setup fuel instruction machine
  exact ⟨effect_not_outOfFuel setup fuel instruction machine, Nat.le_of_eq same, fun _ => same⟩

mutual

theorem execute_takes (faults : Faults) (fuel : Nat) (tree : Node Hole)
    (noLoops : tree.Everywhere IsNoLoop) (machine : Machine) :
    (tree.execute ⟨faults, none⟩ fuel machine).Takes tree.size machine.steps := by
  rw [execute_eq]
  match tree with
  | .block children =>
      rw [size]
      exact machine.tick_takes.next (executeAll_takes faults fuel children noLoops.2)
  | .loop body => exact noLoops.1.elim
  | .move _ | .add _ | .set _ | .print | .read | .addTo _ | .hole _ =>
      refine machine.tick_takes.next (effect_takes _ fuel ?_)
      trivial

theorem executeAll_takes (faults : Faults) (fuel : Nat) (nodes : List (Node Hole))
    (noLoops : EverywhereAll IsNoLoop nodes) (machine : Machine) :
    (executeAll ⟨faults, none⟩ fuel nodes machine).Takes (sizeAll nodes) machine.steps := by
  match nodes with
  | [] =>
      rw [executeAll_nil]
      exact ⟨by simp [Outcome.halt?], Nat.le_refl _, fun _ => rfl⟩
  | node :: rest =>
      rw [executeAll_cons, sizeAll]
      exact (execute_takes faults fuel node noLoops.1 machine).next
        (executeAll_takes faults fuel rest noLoops.2)

end

/-- The tree of a source text has one node for each command that is no bracket and two for each
loop, next to the block around all. A tree without loops runs to an end from every machine, whatever
calls fail: in as many steps as it has nodes if it finishes, in no more of them if it does not. -/
theorem size_counts_commands_and_steps :
    (∀ strict source (tree : Tree), Tree.parse strict source = .ok tree →
      tree.size = 1 + (Command.ofSource source).countP (fun command => !command.isBracket) +
        2 * (Command.ofSource source).count .openLoop) ∧
    ∀ tree : Node Hole, tree.Everywhere IsNoLoop → ∀ faults machine,
      ∃ outcome, (∀ ending, tree.Ends ⟨faults, none⟩ machine ending ↔ ending = outcome) ∧
        (outcome.halt? = none → outcome.machine.steps = machine.steps + tree.size) ∧
        (outcome.halt? ≠ none → outcome.machine.steps ≤ machine.steps + tree.size) := by
  constructor
  · intro strict source tree parsed
    rw [Tree.size_of_parse parsed, Command.nodeCount, Nat.add_assoc]
  · intro tree noLoops faults machine
    have takes := tree.execute_takes faults 0 noLoops machine
    have ends : tree.Ends ⟨faults, none⟩ machine _ := ⟨takes.fed, 0, rfl⟩
    refine ⟨_, fun ending => ⟨fun also => also.unique ends, ?_⟩, takes.finished,
      fun _ => takes.most⟩
    rintro rfl
    exact ends

/-- A loop that the text leaves open, and a tree whose second instruction waits for input. -/
theorem block_within_block_size :
    (∃ tree, Tree.parse false "+[>-" = .ok tree ∧ tree.size = 6) ∧
    ∃ tree : Tree, tree.Everywhere IsNoLoop ∧ tree.size = 6 ∧
      (∃ outcome, tree.Ends ⟨{}, none⟩ { console := { input := [7] } } outcome ∧
        outcome.halt? = none ∧ outcome.machine.steps = 6) ∧
      ∃ outcome, tree.Ends ⟨{}, none⟩ {} outcome ∧
        outcome.halt? = some (.fault .endOfInput) ∧ outcome.machine.steps ≤ 6 := by
  let tree : Tree := .block [.print, .block [.read, .add 1], .move 1]
  have parsed : Tree.parse false "+[>-" =
      .ok (.block [.add 1, .loop (.block [.move 1, .add 255])]) := rfl
  obtain ⟨count, runs⟩ := @size_counts_commands_and_steps Empty
  have noLoops : tree.Everywhere IsNoLoop := by simp [tree, Everywhere, EverywhereAll, IsNoLoop]
  have finished : (tree.execute ⟨{}, none⟩ 0 { console := { input := [7] } }).halt? = none := by
    decide +kernel
  have failed : (tree.execute ⟨{}, none⟩ 0 {}).halt? = some (.fault .endOfInput) := by
    decide +kernel
  refine ⟨⟨_, parsed, count false "+[>-" _ parsed⟩, tree, noLoops, rfl, ?_, ?_⟩
  · obtain ⟨outcome, ended, all, _⟩ := runs tree noLoops {} { console := { input := [7] } }
    obtain rfl := (ended _).mp ⟨by rw [finished]; simp, 0, rfl⟩
    exact ⟨_, (ended _).mpr rfl, finished, all finished⟩
  · obtain ⟨outcome, ended, _, some⟩ := runs tree noLoops {} {}
    obtain rfl := (ended _).mp ⟨by rw [failed]; simp, 0, rfl⟩
    exact ⟨_, (ended _).mpr rfl, failed, some (by rw [failed]; simp)⟩

end Node

end TapeTree
