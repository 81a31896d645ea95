import TapeTree.Proofs.Machine.Unnoticed

/-! The tape has no origin. A machine whose cells and pointer all stand some distance further along
the tape runs as before, and everything is left that distance further along. -/

namespace TapeTree

namespace Tape

def shifted (distance : Int) (tape : Tape) : Tape where
  cells := .ofList (tape.cells.toList.map fun entry => (entry.1 + distance, entry.2))
  pointer := tape.pointer + distance

variable (distance : Int) (tape : Tape)

theorem getElem?_shifted (address : Int) :
    (tape.shifted distance).cells[address]? = tape.cells[address - distance]? := by
  cases entry : tape.cells[address - distance]? with
  | some value =>
      have listed := Std.ExtTreeMap.mem_toList_iff_getElem?_eq_some.mpr entry
      apply Std.ExtTreeMap.getElem?_ofList_of_mem (Std.LawfulEqCmp.compare_eq_iff_eq.mpr rfl)
      · rw [List.pairwise_map]
        refine Std.ExtTreeMap.distinct_keys_toList.imp ?_
        intro first second distinct same
        rw [Std.LawfulEqCmp.compare_eq_iff_eq] at distinct same
        exact distinct (by omega)
      · rw [List.mem_map]
        exact ⟨_, listed, by simp⟩
  | none =>
      apply Std.ExtTreeMap.getElem?_ofList_of_contains_eq_false
      rw [List.contains_eq_mem, decide_eq_false_iff_not]
      intro listed
      simp only [List.map_map, List.mem_map, Prod.exists] at listed
      obtain ⟨origin, value, member, rfl⟩ := listed
      rw [Std.ExtTreeMap.mem_toList_iff_getElem?_eq_some] at member
      simp [member] at entry

theorem eq_of_entries {first second : Tape} (pointer : first.pointer = second.pointer)
    (entries : ∀ address : Int, first.cells[address]? = second.cells[address]?) :
    first = second := by
  cases first
  cases second
  cases pointer
  congr
  exact Std.ExtTreeMap.ext_getElem? entries

theorem cellAt_shifted (address : Int) :
    (tape.shifted distance).cellAt address = tape.cellAt (address - distance) := by
  simp only [cellAt, Std.ExtTreeMap.getD_eq_getD_getElem?, getElem?_shifted]

theorem get_shifted (offset : Int) : (tape.shifted distance).get offset = tape.get offset := by
  have same : tape.pointer + distance + offset - distance = tape.pointer + offset := by omega
  rw [get, cellAt_shifted, shifted, same, get]

theorem current_shifted : (tape.shifted distance).current = tape.current := by
  rw [← get_zero, get_shifted, get_zero]

theorem move_shifted (further : Int) :
    (tape.shifted distance).move further = (tape.move further).shifted distance := by
  simp only [move, shifted, Int.add_right_comm]

theorem set_shifted (offset value : Int) :
    (tape.shifted distance).set offset value = (tape.set offset value).shifted distance := by
  apply eq_of_entries
  · rfl
  · intro address
    rw [getElem?_shifted]
    simp only [set, Std.ExtTreeMap.getElem?_insert, Std.LawfulEqCmp.compare_eq_iff_eq,
      getElem?_shifted]
    have same : (tape.shifted distance).pointer + offset = address ↔
        tape.pointer + offset = address - distance := by
      simp only [shifted]
      omega
    simp only [same]

theorem setCurrent_shifted (value : Int) :
    (tape.shifted distance).setCurrent value = (tape.setCurrent value).shifted distance := by
  rw [← set_zero, set_shifted, set_zero]

end Tape

namespace Machine

def shifted (distance : Int) (machine : Machine) : Machine :=
  { machine with tape := machine.tape.shifted distance }

variable (distance : Int)

theorem shifted_unnoticed (limit : Option Int) : Unnoticed limit (shifted distance) :=
  unnoticed_of_steps (shifted distance) (fun _ => rfl) (fun _ _ => rfl)
    (fun machine => machine.tape.current_shifted distance) limit

theorem shifted_changesConsole : ChangesConsole id (shifted distance) where
  console := fun _ => rfl
  called := fun _ _ => rfl

variable (machine : Machine)

theorem move_shifted (further : Int) :
    (machine.shifted distance).move further = (machine.move further).shifted distance := by
  simp only [move, shifted, Tape.move_shifted]

theorem setCurrent_shifted (value : Int) :
    (machine.shifted distance).setCurrent value = (machine.setCurrent value).shifted distance := by
  simp only [setCurrent, shifted, Tape.setCurrent_shifted]

theorem add_shifted (amount : Int) :
    (machine.shifted distance).add amount = (machine.add amount).shifted distance := by
  have same : (machine.shifted distance).tape.current = machine.tape.current :=
    machine.tape.current_shifted distance
  rw [add, setCurrent_shifted, same, add]

theorem addTo_shifted (offset : Int) :
    (machine.shifted distance).addTo offset = (machine.addTo offset).shifted distance := by
  simp only [addTo, shifted, Tape.get_shifted, Tape.current_shifted, Tape.set_shifted]

end Machine

namespace Node

variable {Hole : Type}

theorem effect_shifted (setup : Setup) (fuel : Nat) {node : Node Hole}
    (instruction : node.IsInstruction) (distance : Int) (machine : Machine) :
    node.effect setup fuel (machine.shifted distance) =
      (node.effect setup fuel machine).changed (Machine.shifted distance) := by
  have current := machine.tape.current_shifted distance
  have changes := Machine.shifted_changesConsole distance
  cases node with
  | block => cases instruction
  | loop => cases instruction
  | hole => rfl
  | move further => exact congrArg _ (machine.move_shifted distance further)
  | set value => exact congrArg _ (machine.setCurrent_shifted distance value)
  | add amount => exact congrArg _ (machine.add_shifted distance amount)
  | addTo offset => exact congrArg _ (machine.addTo_shifted distance offset)
  | print =>
      rw [effect, effect, Machine.shifted, current]
      exact changes.write (fun _ => rfl) machine.tape.current
  | read =>
      rw [effect, effect]
      refine changes.read rfl (fun byte start => ?_)
      exact congrArg _ (start.setCurrent_shifted distance byte)

theorem execute_shifted (setup : Setup) (fuel : Nat) (distance : Int) (tree : Node Hole)
    (machine : Machine) :
    tree.execute setup fuel (machine.shifted distance) =
      (tree.execute setup fuel machine).changed (Machine.shifted distance) := by
  apply execute_changed (Machine.shifted_unnoticed distance setup.stepLimit)
  apply everywhere_of_forall
  intro node instruction start
  exact effect_shifted setup fuel instruction distance start

end Node

/-- A run from a shifted machine ends if and only if the run from the machine itself does, in the
same way and with the same machine but for the shift. Every entry of the tape is shifted, those
that hold zero too, and there are no others. -/
theorem tape_has_no_origin {Hole : Type} (setup : Setup) (tree : Node Hole) (distance : Int)
    (machine : Machine) :
    (∀ ending, tree.Ends setup (machine.shifted distance) ending ↔
      ∃ outcome, tree.Ends setup machine outcome ∧
        ending = outcome.changed (Machine.shifted distance)) ∧
    ∀ tape : Tape, (tape.shifted distance).pointer = tape.pointer + distance ∧
      ∀ address : Int,
        (tape.shifted distance).cells[address + distance]? = tape.cells[address]? := by
  constructor
  · intro ending
    apply Node.ends_changed_iff
    intro fuel
    exact tree.execute_shifted setup fuel distance machine
  · intro tape
    refine ⟨rfl, fun address => ?_⟩
    rw [tape.getElem?_shifted, Int.add_sub_cancel]

end TapeTree
