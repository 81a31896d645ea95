import TapeTree.Proofs.Machine.Resembling
import TapeTree.Proofs.Machine.Snapshot
import TapeTree.Proofs.Optimize.Settling

/-! Sessions in which cells hold bytes. As long as no request writes anything else, every value
that is to be put out or shown is a byte, also after a request that failed. -/

namespace TapeTree

structure Outcome.KeepsBytes (outcome : Outcome) : Prop where
  bytes : outcome.machine.tape.HoldsBytes
  printed : ∀ value, outcome.halt? ≠ some (.notByte value)

theorem Machine.write_keepsBytes (faults : Faults) {value : Int} {machine : Machine}
    (inside : 0 ≤ value ∧ value < cellSize) (bytes : machine.tape.HoldsBytes) :
    (machine.write faults value).KeepsBytes := by
  rcases machine.write_cases faults value with
    ⟨_, _, _, _, written⟩ | ⟨_, _, _, _, _, written⟩ | ⟨refused, _⟩
  · rw [written]
    exact ⟨bytes, by simp [Outcome.halt?]⟩
  · rw [written]
    exact ⟨bytes, by simp [Outcome.halt?]⟩
  · exact absurd inside ((byte?_eq_none_iff value).mp refused)

theorem keepsBytes_lasting (limit : Option Int) :
    Lasting limit fun machine outcome => machine.tape.HoldsBytes → outcome.KeepsBytes where
  here := fun _ bytes => ⟨bytes, by simp [Outcome.halt?]⟩
  next := fun first rest bytes => rest (first bytes).bytes
  tick := by
    intro machine bytes
    rcases machine.tick_cases limit with ⟨counted, _⟩ | ⟨_, _, _, exceeded⟩
    · rw [counted]
      exact ⟨bytes, by simp [Outcome.halt?]⟩
    · rw [exceeded]
      exact ⟨bytes, by simp [Outcome.halt?]⟩
  starved := fun _ bytes => ⟨bytes, by simp [Outcome.halt?]⟩

namespace Node

variable {Hole : Type}

theorem effect_keepsBytes (setup : Setup) (fuel : Nat) {node : Node Hole}
    (instruction : node.IsInstruction) (sets : node.SetsByte) {machine : Machine}
    (bytes : machine.tape.HoldsBytes) : (node.effect setup fuel machine).KeepsBytes := by
  have setsAlone : node.SetsBytes := (everywhere_iff_of_isInstruction instruction).mpr sets
  have itself : (node.effect setup fuel machine).Resembles (node.effect setup fuel machine) :=
    effect_resembles rfl fuel fuel instruction setsAlone (.refl bytes)
  refine ⟨itself.holdsBytes, fun value refused => ?_⟩
  rcases (effect_acts setup fuel instruction machine).halts refused with
    ⟨_, other⟩ | ⟨rfl, _⟩ | ⟨_, other⟩
  · cases other
  · exact (machine.write_keepsBytes setup.faults (bytes.cellAt _) bytes).printed value refused
  · cases other

theorem execute_keepsBytes (setup : Setup) (fuel : Nat) {tree : Node Hole}
    (sets : tree.SetsBytes) {machine : Machine} (bytes : machine.tape.HoldsBytes) :
    (tree.execute setup fuel machine).KeepsBytes := by
  refine execute_lasts (keepsBytes_lasting setup.stepLimit) fuel tree ?_ machine bytes
  refine Everywhere.mono ?_ tree sets
  intro node sets instruction middle
  exact effect_keepsBytes setup fuel instruction sets

theorem runPasses_setsBytes [DecidableEq Hole] {tree : Node Hole} (sets : tree.SetsBytes)
    (passes : Option Int) : (tree.runPasses passes).tree.SetsBytes := by
  obtain ⟨count, same⟩ := runPasses_tree tree passes
  rw [same]
  exact afterPasses_everywhere setsByte_maintained count sets

end Node

/-! Requests. -/

def Request.WritesBytes {Hole : Type} : Request Hole → Prop
  | .set _ value => 0 ≤ value ∧ value < cellSize
  | .write value => 0 ≤ value ∧ value < cellSize
  | .execute tree => tree.SetsBytes
  | _ => True

structure Answer.KeepsBytes (answer : Answer) (machine : Machine) : Prop where
  bytes : machine.tape.HoldsBytes
  printed : ∀ value, answer ≠ .halted (.notByte value)
  shown : answer ≠ .notBytes

namespace Machine

variable {Hole : Type}

theorem answered_keepsBytes {outcome : Outcome} (keeps : outcome.KeepsBytes) :
    (answered outcome).1.KeepsBytes (answered outcome).2 := by
  cases outcome with
  | finished machine => exact ⟨keeps.bytes, by simp [answered], by simp [answered]⟩
  | halted halt machine =>
      refine ⟨keeps.bytes, ?_, by simp [answered]⟩
      intro value refused
      cases refused
      exact keeps.printed value rfl

theorem perform_keepsBytes (zeros : ArrayMaker) (setup : Setup) (fuel : Nat) {machine : Machine}
    (bytes : machine.tape.HoldsBytes) {request : Request Hole} (writes : request.WritesBytes) :
    (machine.perform zeros setup fuel request).1.KeepsBytes
      (machine.perform zeros setup fuel request).2 := by
  cases request with
  | move distance => exact ⟨bytes.move distance, by simp [perform], by simp [perform]⟩
  | get offset => exact ⟨bytes, by simp [perform], by simp [perform]⟩
  | set offset value => exact ⟨bytes.set offset writes, by simp [perform], by simp [perform]⟩
  | write value => exact answered_keepsBytes (machine.write_keepsBytes setup.faults writes bytes)
  | read =>
      rw [perform]
      split
      · exact ⟨bytes, by simp, by simp⟩
      · exact ⟨bytes, by simp, by simp⟩
  | reset => exact ⟨.blank, by simp [perform], by simp [perform]⟩
  | execute tree => exact answered_keepsBytes (tree.execute_keepsBytes setup fuel writes bytes)
  | executeSource source passes =>
      rw [perform]
      split
      · exact ⟨bytes, by simp, by simp⟩
      · rename_i tree parsed
        have sets : tree.SetsBytes := Tree.setsByte_fromCommands.parse_everywhere parsed
        cases passes with
        | none => exact answered_keepsBytes (tree.execute_keepsBytes setup fuel sets bytes)
        | some count =>
            have setsAfter := Node.runPasses_setsBytes sets count
            exact answered_keepsBytes (Node.execute_keepsBytes setup fuel setsAfter bytes)
  | snapshot start stop =>
      refine ⟨bytes, ?_, ?_⟩
      · intro value
        simp only [perform, Tape.showCells]
        split <;> simp
      · rw [perform, ne_eq, Tape.showCells_eq_notBytes_iff]
        exact Tape.snapshot_ne_notByte bytes zeros _ _

/-- In a session that writes nothing but bytes, every cell is a byte after each request, whether it
failed or not, and no answer is about a value that is none. -/
theorem performAll_keepsBytes (zeros : ArrayMaker) (setup : Setup) (fuel : Nat) {machine : Machine}
    (bytes : machine.tape.HoldsBytes) {requests : List (Request Hole)}
    (writes : ∀ request ∈ requests, request.WritesBytes) :
    ∀ result ∈ machine.performAll zeros setup fuel requests, result.1.KeepsBytes result.2 := by
  induction requests generalizing machine with
  | nil => simp [performAll]
  | cons request rest ih =>
      have first := perform_keepsBytes zeros setup fuel bytes (writes request (by simp))
      have others := ih first.bytes (fun later member => writes later (by simp [member]))
      rw [performAll]
      exact List.forall_mem_cons.mpr ⟨first, others⟩

theorem limited_session_keepsBytes :
    ∃ results, ({ console := { input := [7] } } : Machine).performAll (zerosWithin fun _ => true)
        { stepLimit := some 9 } 9
        ([.executeSource ",-[->+<]." (some (some 1)), .read, .executeSource "<-." none,
          .snapshot (-1) (some 2), .reset, .executeSource "-[" (some none)] :
          List (Request Empty)) = results ∧
      results.length = 6 ∧ ∀ result ∈ results, result.1.KeepsBytes result.2 := by
  refine ⟨_, rfl, by simp [performAll], ?_⟩
  exact performAll_keepsBytes _ { stepLimit := some 9 } 9 .blank (by simp [Request.WritesBytes])

end Machine

end TapeTree
