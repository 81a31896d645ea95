import TapeTree.Proofs.Machine.Silent
import TapeTree.Proofs.Optimize.Forms

/-! What rewritings do to a tape: merged neighbours and idle nodes, and the loops that a node
without loops can stand for. -/

namespace TapeTree.Node

variable {Hole : Type}

theorem idle_sameShape {node : Node Hole} (idle : node.isIdle) : SameShape [node] [] := by
  cases node with
  | move distance =>
      obtain rfl : distance = 0 := by simpa [isIdle] using idle
      refine ⟨⟨trivial, trivial⟩, trivial, ?_⟩
      intro tape _
      simpa [reshapeAll, reshape, tape.move_zero] using Tape.Alike.refl tape
  | add amount =>
      obtain rfl : amount = 0 := by simpa [isIdle] using idle
      refine ⟨⟨trivial, trivial⟩, trivial, ?_⟩
      intro tape bytes
      have inside := bytes.cellAt tape.pointer
      have same : (tape.current + 0) % cellSize = tape.current := by
        rw [Int.add_zero]
        exact Int.emod_eq_of_lt inside.1 inside.2
      simpa only [reshapeAll, reshape, same] using tape.setCurrent_current_alike
  | _ => simp [isIdle] at idle

theorem merged_sameShape {first second merged : Node Hole}
    (found : merge? first second = some merged) : SameShape [first, second] [merged] := by
  rcases merge?_eq_some found with
    ⟨a, b, rfl, rfl, rfl⟩ | ⟨a, b, rfl, rfl, rfl⟩ | ⟨a, b, rfl, rfl, rfl⟩ |
    ⟨a, b, rfl, rfl, rfl⟩ <;>
  refine ⟨⟨trivial, trivial, trivial⟩, ⟨trivial, trivial⟩, ?_⟩ <;>
  intro tape _
  · have sum : ((tape.current + a) % cellSize + b) % cellSize =
        (tape.current + (a + b) % cellSize) % cellSize := by
      simp only [cellSize]
      omega
    simpa only [reshapeAll, reshape, Tape.current_setCurrent, sum] using
      tape.setCurrent_setCurrent_alike _ _
  · simpa only [reshapeAll, reshape, tape.move_move] using .refl _
  · simpa only [reshapeAll, reshape, Tape.current_setCurrent] using
      tape.setCurrent_setCurrent_alike _ _
  · simpa only [reshapeAll, reshape] using tape.setCurrent_setCurrent_alike _ _

/-! Transfers. -/

theorem reshape_add (amount : Int) (tape : Tape) :
    (add amount : Node Hole).reshape tape = tape.bump 0 amount := by
  rw [reshape, Tape.bump, tape.set_zero, tape.get_zero]

theorem transfer_absorbs (out : Int) (tape : Tape) :
    let round := (tape.bump 0 (cellSize - 1)).bump out 1
    ((round.bump out round.current).setCurrent 0).Alike
      ((tape.bump out tape.current).setCurrent 0) := by
  refine ⟨by simp only [Tape.pointer_setCurrent, Tape.pointer_bump], fun address => ?_⟩
  simp only [Tape.cellAt_setCurrent, Tape.cellAt_bump, Tape.pointer_bump, Int.add_zero]
  by_cases here : address = tape.pointer
  · rw [if_pos here, if_pos here]
  · by_cases there : address = tape.pointer + out
    · have elsewhere : out ≠ 0 := by omega
      rw [there, if_neg (by omega), if_pos rfl, if_pos rfl, if_neg (by omega), if_neg (by omega),
        if_pos rfl, Tape.current_bump elsewhere, Tape.current_bump_zero]
      simp only [Int.emod_add_emod, Int.add_emod_emod, cellSize]
      omega
    · simp only [here, there, if_false]

theorem double_transfer_absorbs {out target : Int} (away : out ≠ 0) (farther : target ≠ 0)
    (tape : Tape) :
    let round := ((tape.bump 0 (cellSize - 1)).bump out 1).bump target 1
    let first := round.bump out round.current
    let other := tape.bump out tape.current
    ((first.bump target first.current).setCurrent 0).Alike
      ((other.bump target other.current).setCurrent 0) := by
  refine ⟨by simp only [Tape.pointer_setCurrent, Tape.pointer_bump], fun address => ?_⟩
  simp only [Tape.cellAt_setCurrent, Tape.cellAt_bump, Tape.pointer_bump, Int.add_zero,
    Tape.current_bump away, Tape.current_bump farther, Tape.current_bump_zero]
  by_cases here : address = tape.pointer
  · rw [if_pos here, if_pos here]
  · by_cases near : address = tape.pointer + out <;>
      by_cases far : address = tape.pointer + target <;>
      simp only [here, near, far, if_false, if_true, Int.emod_add_emod, Int.add_emod_emod,
        cellSize] <;>
      omega

theorem reshape_single_transfer {out back : Int} (home : out + back = 0) (tape : Tape) :
    (.block [.add (cellSize - 1), .move out, .add 1, .move back] : Node Hole).reshape tape =
      (tape.bump 0 (cellSize - 1)).bump out 1 := by
  rw [reshape]
  simp only [reshapeAll, reshape_add]
  simp only [reshape, Tape.move_bump_move, home, Tape.move_zero]

theorem reshape_double_transfer {out further back : Int} (home : out + further + back = 0)
    (tape : Tape) :
    (.block [.add (cellSize - 1), .move out, .add 1, .move further, .add 1, .move back] :
        Node Hole).reshape tape =
      ((tape.bump 0 (cellSize - 1)).bump out 1).bump (out + further) 1 := by
  rw [reshape]
  simp only [reshapeAll, reshape_add]
  simp only [reshape, Tape.move_bump_move, home, Tape.move_zero]

theorem single_transfer_counts {out back : Int} (home : out + back = 0) (away : out ≠ 0)
    (tape : Tape) :
    ((.block [.add (cellSize - 1), .move out, .add 1, .move back] : Node Hole).reshape
      tape).current = (tape.current + (cellSize - 1)) % cellSize := by
  rw [reshape_single_transfer home, Tape.current_bump away, Tape.current_bump_zero]

theorem double_transfer_counts {out further back : Int} (home : out + further + back = 0)
    (away : out ≠ 0) (farther : out + further ≠ 0) (tape : Tape) :
    ((.block [.add (cellSize - 1), .move out, .add 1, .move further, .add 1, .move back] :
      Node Hole).reshape tape).current = (tape.current + (cellSize - 1)) % cellSize := by
  rw [reshape_double_transfer home, Tape.current_bump farther, Tape.current_bump away,
    Tape.current_bump_zero]

/-! Loops with a node in their place. -/

/-- Running the node once comes to the same as any number of rounds before it. A round counts the
current cell up or down by one, so the rounds come to an end. -/
structure StandsFor (stand body : Node Hole) : Prop where
  silent : body.IsSilent
  sets : body.SetsBytes
  alsoSilent : stand.IsSilent
  small : stand.size ≤ 4
  passed : ∀ tape : Tape, tape.HoldsBytes → tape.current = 0 → (stand.reshape tape).Alike tape
  absorbed : ∀ tape : Tape, (stand.reshape (body.reshape tape)).Alike (stand.reshape tape)
  counts : ∃ amount, (amount = 1 ∨ amount = cellSize - 1) ∧
    ∀ tape : Tape, (body.reshape tape).current = (tape.current + amount) % cellSize

theorem clears_standsFor {body : Node Hole} (clearing : body.clears) :
    StandsFor (.set 0) body := by
  cases body with
  | add amount =>
      refine ⟨trivial, trivial, trivial, by simp [size], ?_, ?_, amount, ?_, ?_⟩
      · intro tape _ zero
        exact Tape.setCurrent_zero_alike zero
      · intro tape
        exact tape.setCurrent_setCurrent_alike _ _
      · simpa [clears] using clearing
      · intro tape
        rw [reshape, Tape.current_setCurrent]
  | _ => simp [clears] at clearing

theorem single_transfer_standsFor {out back : Int} (home : out + back = 0) (away : out ≠ 0) :
    StandsFor (.block [.addTo out, .set 0] : Node Hole)
      (.block [.add (cellSize - 1), .move out, .add 1, .move back]) := by
  have stands (tape : Tape) : (.block [.addTo out, .set 0] : Node Hole).reshape tape =
      (tape.bump out tape.current).setCurrent 0 := rfl
  refine ⟨⟨trivial, trivial, trivial, trivial, trivial⟩,
    ⟨trivial, trivial, trivial, trivial, trivial, trivial⟩, ⟨trivial, trivial, trivial⟩,
    by simp [size, sizeAll], ?_, ?_, cellSize - 1, Or.inr rfl, single_transfer_counts home away⟩
  · intro tape bytes zero
    have unchanged := bytes.bump_zero_alike out
    rw [stands, zero]
    exact (Tape.setCurrent_zero_alike (unchanged.current.trans zero)).trans unchanged
  · intro tape
    rw [stands, stands, reshape_single_transfer home]
    exact transfer_absorbs out tape

theorem double_transfer_standsFor {out further back : Int} (home : out + further + back = 0)
    (away : out ≠ 0) (farther : out + further ≠ 0) :
    StandsFor (.block [.addTo out, .addTo (out + further), .set 0] : Node Hole)
      (.block [.add (cellSize - 1), .move out, .add 1, .move further, .add 1, .move back]) := by
  have stands (tape : Tape) :
      (.block [.addTo out, .addTo (out + further), .set 0] : Node Hole).reshape tape =
        ((tape.bump out tape.current).bump (out + further)
          (tape.bump out tape.current).current).setCurrent 0 := rfl
  refine ⟨⟨trivial, trivial, trivial, trivial, trivial, trivial, trivial⟩,
    ⟨trivial, trivial, trivial, trivial, trivial, trivial, trivial, trivial⟩,
    ⟨trivial, trivial, trivial, trivial⟩, by simp [size, sizeAll], ?_, ?_, cellSize - 1,
    Or.inr rfl, double_transfer_counts home away farther⟩
  · intro tape bytes zero
    have first := bytes.bump_zero_alike out
    have second := (bytes.alike first.symm).bump_zero_alike (out + further)
    have unchanged := second.trans first
    rw [stands, zero, first.current, zero]
    exact (Tape.setCurrent_zero_alike (unchanged.current.trans zero)).trans unchanged
  · intro tape
    rw [stands, stands, reshape_double_transfer home]
    exact double_transfer_absorbs away farther tape

def LeadsAway : List (Node Hole) → Prop
  | [_, .move out, _, _] => out ≠ 0
  | [_, .move out, _, .move further, _, _] => out ≠ 0 ∧ out + further ≠ 0
  | _ => False

theorem leadsAway_of_active {children : List (Node Hole)} {stand : Node Hole}
    (found : transfer? children = some stand) (active : ∀ child ∈ children, child.Active) :
    LeadsAway children := by
  rcases transfer?_eq_some_of_active found active with
    ⟨out, back, rfl, away, _⟩ | ⟨out, further, back, rfl, away, _, homeward, home, _⟩
  · exact away
  · exact ⟨away, by omega⟩

theorem transfer?_standsFor {children : List (Node Hole)} {stand : Node Hole}
    (found : transfer? children = some stand) (leads : LeadsAway children) :
    StandsFor stand (.block children) := by
  rcases transfer?_eq_some found with
    ⟨out, back, rfl, home, rfl⟩ | ⟨out, further, back, rfl, home, rfl⟩
  · exact single_transfer_standsFor home leads
  · exact double_transfer_standsFor home leads.1 leads.2

end TapeTree.Node
