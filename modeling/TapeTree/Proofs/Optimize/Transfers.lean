import TapeTree.Proofs.Optimize.Termination

/-! Loops that move a cell into one or two others, round by round, against the nodes that do so at
once. The loop runs as many rounds as the cell counts, and both leave the same tape. -/

namespace TapeTree.Node

variable {Hole : Type}

theorem roundsLeft_down {value : Int} (byte : 0 ≤ value ∧ value < cellSize) :
    roundsLeft (cellSize - 1) value = value.toNat := by
  simp only [roundsLeft, cellSize] at byte ⊢
  omega

theorem transfer?_counts_down {children : List (Node Hole)} {stand : Node Hole}
    (found : transfer? children = some stand) (leads : LeadsAway children) (tape : Tape) :
    ((Node.block children).reshape tape).current = (tape.current + (cellSize - 1)) % cellSize := by
  rcases transfer?_eq_some found with
    ⟨out, back, rfl, home, rfl⟩ | ⟨out, further, back, rfl, home, rfl⟩
  · exact single_transfer_counts home leads tape
  · exact double_transfer_counts home leads.1 leads.2 tape

theorem transfer?_sizeAll {children : List (Node Hole)} {stand : Node Hole}
    (found : transfer? children = some stand) :
    sizeAll children = children.length ∧ (children.length = 4 ∨ children.length = 6) := by
  rcases transfer?_eq_some found with ⟨_, _, rfl, _⟩ | ⟨_, _, _, rfl, _⟩
  · exact ⟨rfl, Or.inl rfl⟩
  · exact ⟨rfl, Or.inr rfl⟩

/-- A transfer loop ends after as many rounds as its cell counts, each of them one step for the
round, one for the body and one for every node in it. The node in its place leaves the same
tape. -/
theorem transfer_loop_exact (faults : Faults) {children : List (Node Hole)} {stand : Node Hole}
    (found : transfer? children = some stand) (leads : LeadsAway children) (machine : Machine)
    (bytes : machine.tape.HoldsBytes) :
    ∃ count : Nat, machine.tape.current = count ∧
      ∃ after direct, (Node.loop (.block children)).Ends { faults } machine (.finished after) ∧
        stand.Ends { faults } machine (.finished direct) ∧
        (children.length = 4 ∧ after.steps = machine.steps + (1 + 6 * count) ∨
          children.length = 6 ∧ after.steps = machine.steps + (1 + 8 * count)) ∧
        after.tape.Alike direct.tape ∧
        after.console = machine.console ∧ direct.console = machine.console := by
  have stands := transfer?_standsFor found leads
  have byte := bytes.cellAt machine.tape.pointer
  obtain ⟨after, ended, alike, console, steps⟩ :=
    stands.loop_finishes (Or.inr rfl) (transfer?_counts_down found leads) faults
      (Nat.le_refl mostRounds) bytes
  have once := (execute_silent { faults } 0 stand stands.alsoSilent machine).finished_of_allowed
    (by simp)
  have rounds : roundsLeft (cellSize - 1) machine.tape.current = machine.tape.current.toNat :=
    roundsLeft_down byte
  obtain ⟨nodes, lengths⟩ := transfer?_sizeAll found
  rw [rounds, size, nodes] at steps
  refine ⟨machine.tape.current.toNat, (Int.toNat_of_nonneg byte.1).symm, after, _,
    ⟨by simp [Outcome.halt?], mostRounds, ended⟩, ⟨by simp [Outcome.halt?], 0, once⟩, ?_, alike,
    console, rfl⟩
  rcases lengths with four | six
  · rw [four] at steps
    exact Or.inl ⟨four, by omega⟩
  · rw [six] at steps
    exact Or.inr ⟨six, by omega⟩

/-- Both targets are one cell, to the left of the one that counts down. It wraps around. -/
theorem double_transfer_onto_one_cell :
    ∃ after direct,
      (.loop (.block [.add 255, .move (-3), .add 1, .move 0, .add 1, .move 3]) : Tree).Ends {}
        { tape := (({} : Tape).setCurrent 200).set (-3) 9 } (.finished after) ∧
      (.block [.addTo (-3), .addTo (-3), .set 0] : Tree).Ends {}
        { tape := (({} : Tape).setCurrent 200).set (-3) 9 } (.finished direct) ∧
      after.steps = 1601 ∧ after.tape.Alike direct.tape := by
  have bytes : ((({} : Tape).setCurrent 200).set (-3) 9).HoldsBytes :=
    (Tape.HoldsBytes.blank.setCurrent (by decide)).set (-3) (by decide)
  have current : ((({} : Tape).setCurrent 200).set (-3) 9).current = 200 := by
    simp [Tape.current, Tape.cellAt_set, Tape.cellAt_setCurrent]
  have found : transfer? [.add 255, .move (-3), .add 1, .move 0, .add 1, .move 3] =
      some (.block [.addTo (-3), .addTo (-3), .set 0] : Tree) := by
    decide
  have leads : LeadsAway ([.add 255, .move (-3), .add 1, .move 0, .add 1, .move 3] : List Tree) :=
    ⟨by decide, by decide⟩
  obtain ⟨count, counted, after, direct, looped, ended, steps, alike, _⟩ :=
    transfer_loop_exact {} found leads { tape := (({} : Tape).setCurrent 200).set (-3) 9 } bytes
  refine ⟨after, direct, looped, ended, ?_, alike⟩
  rw [current] at counted
  rcases steps with ⟨four, _⟩ | ⟨_, steps⟩
  · cases four
  · rw [steps]
    simp only
    omega

end TapeTree.Node
