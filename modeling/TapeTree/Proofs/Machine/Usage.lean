import TapeTree.Optimize.Passes
import TapeTree.Proofs.Machine.Runs
import TapeTree.Proofs.Machine.Tape

/-! What a run uses up. In a step at most one byte is carried in or out and at most one entry is made
on the tape. A step that moves the pointer does nothing else, and in the tree of a source text it
moves it by one. So a bound on the steps is a bound on everything else. -/

namespace TapeTree

namespace Console

def Carried (input : List UInt8) (count : Nat) (console : Console) : Prop :=
  ∃ taken, input = taken ++ console.input ∧ taken.length + console.output.size = count

theorem carried_fresh (input : List UInt8) : Carried input 0 { input } :=
  ⟨[], rfl, rfl⟩

theorem Carried.called {input : List UInt8} {count : Nat} {faults : Faults}
    {before after : Console} (carried : before.Carried input count)
    (called : before.Called faults after) : ∃ more ≤ count + 1, after.Carried input more := by
  obtain ⟨taken, rfl, rfl⟩ := carried
  rcases called.carries with ⟨output, left⟩ | ⟨byte, output, left⟩ | ⟨byte, output, first⟩
  · exact ⟨_, Nat.le_succ _, taken, by rw [left], by rw [output]⟩
  · exact ⟨_, Nat.le_refl _, taken, by rw [left], by rw [output, Array.size_push]; rfl⟩
  · refine ⟨_, ?_, taken ++ [byte], by simp [first], rfl⟩
    rw [output, List.length_append, List.length_singleton]
    omega

end Console

namespace Tape

theorem size_set_le (tape : Tape) (offset value : Int) :
    (tape.set offset value).cells.size ≤ tape.cells.size + 1 :=
  Std.ExtTreeMap.size_insert_le

theorem mem_set (tape : Tape) (offset value address : Int) :
    address ∈ (tape.set offset value).cells ↔
      address = tape.pointer + offset ∨ address ∈ tape.cells := by
  rw [set, Std.ExtTreeMap.mem_insert, Std.LawfulEqCmp.compare_eq_iff_eq, eq_comm]

end Tape

structure UsesWithin (input : List UInt8) (most : Nat) (tape : Tape) (console : Console) :
    Prop where
  bytes : ∃ carried, console.Carried input carried ∧ carried ≤ most
  entries : tape.cells.size ≤ most

/-- The pointer and all entries are no further than so many places from the origin. The bytes carried
since the machine was fresh count as distance of the pointer. -/
structure StaysWithin (input : List UInt8) (most : Nat) (tape : Tape) (console : Console) :
    Prop where
  bytes : ∃ carried, console.Carried input carried ∧ tape.pointer.natAbs + carried ≤ most
  addresses : ∀ address ∈ tape.cells, address.natAbs ≤ most

namespace Node

variable {Hole : Type}

def IsNear : Node Hole → Prop
  | .move distance => distance.natAbs ≤ 1
  | .addTo _ => False
  | _ => True

/-- What grows by at most one with each step of a tree of nodes like these. -/
structure Grows (within : Nat → Tape → Console → Prop) (faults : Faults)
    (may : Node Hole → Prop) : Prop where
  tick : ∀ {most tape console}, within most tape console → within (most + 1) tape console
  acts : ∀ {most node machine outcome}, may node → node.Acts faults machine outcome →
    within most machine.tape machine.console →
    within (most + 1) outcome.machine.tape outcome.machine.console

namespace Grows

variable {within : Nat → Tape → Console → Prop} {may : Node Hole → Prop} {setup : Setup}

theorem lasting (grows : Grows within setup.faults may) :
    Lasting setup.stepLimit fun machine outcome =>
      within machine.steps machine.tape machine.console →
        within outcome.machine.steps outcome.machine.tape outcome.machine.console where
  here := fun _ => id
  next := fun first rest start => rest (first start)
  tick := by
    intro machine start
    rw [machine.machine_tick]
    exact grows.tick start
  starved := fun _ => id

theorem instruction (grows : Grows within setup.faults may) (fuel : Nat) {node : Node Hole}
    (allowed : may node) (instruction : node.IsInstruction) {machine : Machine}
    (start : within machine.steps machine.tape machine.console) :
    within (node.execute setup fuel machine).machine.steps
      (node.execute setup fuel machine).machine.tape
      (node.execute setup fuel machine).machine.console := by
  rw [execute_eq]
  rcases machine.tick_cases setup.stepLimit with ⟨counted, _⟩ | ⟨_, _, _, exceeded⟩
  · rw [counted, Outcome.next_finished, steps_effect setup fuel instruction]
    exact grows.acts allowed (effect_acts setup fuel instruction _) start
  · rw [exceeded]
    exact grows.tick start

theorem execute (grows : Grows within setup.faults may) (fuel : Nat) {tree : Node Hole}
    (allowed : tree.Everywhere may) (machine : Machine)
    (start : within machine.steps machine.tape machine.console) :
    within (tree.execute setup fuel machine).machine.steps
      (tree.execute setup fuel machine).machine.tape
      (tree.execute setup fuel machine).machine.console := by
  -- the effect of an instruction uses what its step has made room for, so only both together last
  refine execute_lasts_stepwise grows.lasting fuel tree ?_ machine start
  refine Everywhere.mono ?_ tree allowed
  intro node holds isInstruction first begun
  exact grows.instruction fuel holds isInstruction begun

end Grows

section Acts

variable {faults : Faults} {machine : Machine} {node : Node Hole} {outcome : Outcome}
  {input : List UInt8} {count : Nat}

theorem Acts.carried (acts : node.Acts faults machine outcome)
    (carried : machine.console.Carried input count) :
    ∃ more ≤ count + 1, outcome.machine.console.Carried input more := by
  rcases acts.console with same | called
  · rw [same]
    exact ⟨count, Nat.le_succ count, carried⟩
  · exact carried.called called

theorem Acts.tape (acts : node.Acts faults machine outcome) :
    (∃ distance, node = .move distance ∧ outcome = .finished (machine.move distance)) ∨
      outcome.machine.tape = machine.tape ∨
      ∃ offset value, (offset = 0 ∨ node = .addTo offset) ∧
        outcome.machine.tape = machine.tape.set offset value := by
  cases acts with
  | moved distance => exact Or.inl ⟨distance, rfl, rfl⟩
  | printed | failed | notByte | hole => exact Or.inr (Or.inl rfl)
  | wrote offset value place => exact Or.inr (Or.inr ⟨offset, value, place, rfl⟩)
  | taken _ value =>
      exact Or.inr (Or.inr ⟨0, value, Or.inl rfl, (machine.tape.set_zero value).symm⟩)

end Acts

theorem usesWithin_grows (input : List UInt8) (faults : Faults) :
    Grows (UsesWithin input) faults fun _ : Node Hole => True where
  tick := by
    intro most tape console start
    obtain ⟨carried, since, few⟩ := start.bytes
    exact ⟨⟨carried, since, Nat.le_succ_of_le few⟩, Nat.le_succ_of_le start.entries⟩
  acts := by
    intro most node machine outcome _ acts start
    obtain ⟨carried, since, few⟩ := start.bytes
    obtain ⟨more, further, after⟩ := acts.carried since
    refine ⟨⟨more, after, Nat.le_trans further (Nat.succ_le_succ few)⟩, ?_⟩
    rcases acts.tape with ⟨distance, rfl, rfl⟩ | same | ⟨offset, value, _, written⟩
    · exact Nat.le_succ_of_le start.entries
    · rw [same]
      exact Nat.le_succ_of_le start.entries
    · rw [written]
      have grown := machine.tape.size_set_le offset value
      exact Nat.le_trans grown (Nat.succ_le_succ start.entries)

theorem staysWithin_grows (input : List UInt8) (faults : Faults) :
    Grows (StaysWithin input) faults (@IsNear Hole) where
  tick := by
    intro most tape console start
    obtain ⟨carried, since, few⟩ := start.bytes
    exact ⟨⟨carried, since, Nat.le_succ_of_le few⟩,
      fun address entry => Nat.le_succ_of_le (start.addresses address entry)⟩
  acts := by
    intro most node machine outcome near acts start
    obtain ⟨carried, since, few⟩ := start.bytes
    obtain ⟨more, further, after⟩ := acts.carried since
    have before (address) (entry : address ∈ machine.tape.cells) : address.natAbs ≤ most + 1 :=
      Nat.le_succ_of_le (start.addresses address entry)
    rcases acts.tape with ⟨distance, rfl, rfl⟩ | same | ⟨offset, value, rfl | rfl, written⟩
    · -- a move carries no byte, so the step is there for the distance
      have one : distance.natAbs ≤ 1 := near
      refine ⟨⟨carried, since, ?_⟩, before⟩
      simp only [Outcome.machine_finished, Machine.move, Tape.pointer_move]
      omega
    · rw [same]
      exact ⟨⟨more, after, by omega⟩, before⟩
    · rw [written]
      refine ⟨⟨more, after, by rw [Tape.pointer_set]; omega⟩, ?_⟩
      intro address entry
      rcases (machine.tape.mem_set 0 value address).mp entry with rfl | older
      · omega
      · exact before address older
    · cases near

end Node

theorem Tree.isNear_fromCommands : FromCommands Node.IsNear where
  single := by
    intro command node found
    cases command <;> cases found <;> simp [Node.IsNear]
  block := fun _ => trivial
  loop := fun _ => trivial

theorem Tape.not_mem_blank (address : Int) : address ∉ ({} : Tape).cells := by
  simp

/-- A bound on the steps bounds everything that a run from a fresh machine uses up, however it
ends. With the tree of a source text, the bytes read and written and the distance of the pointer
from where it began are together no more than the steps, there are no more entries on the tape
than steps, and none of them is further away than that. After passes of the optimizer a step may
go any distance, and all the rest still holds. -/
theorem steps_bound_usage {strict : Bool} {source : String} {tree : Tree}
    (parsed : Tree.parse strict source = .ok tree) (setup : Setup) (input : List UInt8) :
    (∀ outcome, tree.Ends setup { console := { input } } outcome →
      (∃ carried, outcome.machine.console.Carried input carried ∧
        outcome.machine.tape.pointer.natAbs + carried ≤ outcome.machine.steps) ∧
      outcome.machine.tape.cells.size ≤ outcome.machine.steps ∧
      ∀ address ∈ outcome.machine.tape.cells, address.natAbs ≤ outcome.machine.steps) ∧
    ∀ passes outcome, (tree.runPasses passes).tree.Ends setup { console := { input } } outcome →
      (∃ carried, outcome.machine.console.Carried input carried ∧
        carried ≤ outcome.machine.steps) ∧
      outcome.machine.tape.cells.size ≤ outcome.machine.steps := by
  let fresh : Machine := { console := { input } }
  have none : Console.Carried input 0 fresh.console := Console.carried_fresh input
  have uses (fuel : Nat) (tree : Tree) :=
    (Node.usesWithin_grows input setup.faults).execute fuel
      (Node.everywhere_of_forall (fun _ => trivial) tree) fresh
      ⟨⟨0, none, Nat.le_refl 0⟩, Nat.le_refl 0⟩
  constructor
  · rintro _ ⟨_, fuel, rfl⟩
    have stays := (Node.staysWithin_grows input setup.faults).execute fuel
      (Tree.isNear_fromCommands.parse_everywhere parsed) fresh
      ⟨⟨0, none, Nat.le_refl 0⟩, fun address entry => absurd entry (Tape.not_mem_blank address)⟩
    exact ⟨stays.bytes, (uses fuel tree).entries, stays.addresses⟩
  · rintro passes _ ⟨_, fuel, rfl⟩
    have used := uses fuel (tree.runPasses passes).tree
    exact ⟨used.bytes, used.entries⟩

/-- The first flush fails, after a move, a read and a write. -/
theorem failed_flush_usage :
    ∃ tree outcome, Tree.parse false "<,[.>" = .ok tree ∧
      tree.Ends ⟨{ flush := fun _ => some "full" }, some 9⟩ { console := { input := [5, 6] } }
        outcome ∧
      outcome.halt? = some (.fault (.writeFailed "full")) ∧ outcome.machine.steps = 7 ∧
      (∃ carried, outcome.machine.console.Carried [5, 6] carried ∧
        outcome.machine.tape.pointer.natAbs + carried ≤ 7) ∧
      outcome.machine.tape.cells.size ≤ 7 ∧
      (∀ address ∈ outcome.machine.tape.cells, address.natAbs ≤ 7) ∧
      ∀ passes ending, (tree.runPasses passes).tree.Ends ⟨{}, none⟩
        { console := { input := [5, 6] } } ending →
          ending.machine.tape.cells.size ≤ ending.machine.steps := by
  let setup : Setup := ⟨{ flush := fun _ => some "full" }, some 9⟩
  let start : Machine := { console := { input := [5, 6] } }
  let tree : Tree := .block [.move (-1), .read, .loop (.block [.print, .move 1])]
  have parsed : Tree.parse false "<,[.>" = .ok tree := rfl
  have failed : (tree.execute setup 1 start).halt? = some (.fault (.writeFailed "full")) := by
    decide +kernel
  have steps : (tree.execute setup 1 start).machine.steps = 7 := by decide +kernel
  have ends : tree.Ends setup start (tree.execute setup 1 start) := ⟨by rw [failed]; simp, 1, rfl⟩
  have bounds := (steps_bound_usage parsed setup [5, 6]).1 _ ends
  rw [steps] at bounds
  obtain ⟨bytes, entries, addresses⟩ := bounds
  have passed := (steps_bound_usage parsed ⟨{}, none⟩ [5, 6]).2
  exact ⟨tree, _, parsed, ends, failed, steps, bytes, entries, addresses,
    fun passes ending ended => (passed passes ending ended).2⟩

end TapeTree
