import TapeTree.Proofs.Machine.Following

/-! Trees without loops, input and output. Their runs change the tape in a way that can be said
without a machine, and take as many steps as the trees have nodes. -/

namespace TapeTree

namespace Node

variable {Hole : Type}

mutual

def IsSilent : Node Hole → Prop
  | .move _ | .add _ | .set _ | .addTo _ => True
  | .block children => AllSilent children
  | .print | .read | .loop _ | .hole _ => False

def AllSilent : List (Node Hole) → Prop
  | [] => True
  | node :: rest => IsSilent node ∧ AllSilent rest

end

mutual

def reshape : Node Hole → Tape → Tape
  | .move distance, tape => tape.move distance
  | .add amount, tape => tape.setCurrent ((tape.current + amount) % cellSize)
  | .set value, tape => tape.setCurrent value
  | .addTo offset, tape => tape.set offset ((tape.get offset + tape.current) % cellSize)
  | .block children, tape => reshapeAll children tape
  | .print, tape | .read, tape | .loop _, tape | .hole _, tape => tape

def reshapeAll : List (Node Hole) → Tape → Tape
  | [], tape => tape
  | node :: rest, tape => reshapeAll rest (reshape node tape)

end

end Node

def Outcome.Reshaped (limit : Option Int) (machine : Machine) (tape : Tape) (count : Nat)
    (outcome : Outcome) : Prop :=
  (outcome = .finished ⟨tape, machine.steps + count, machine.console⟩ ∧
    (0 < count → Machine.Allowed limit ⟨tape, machine.steps + count, machine.console⟩)) ∨
  ∃ most steps after, limit = some most ∧ most < machine.steps + count ∧
    outcome = .halted (.stepLimit most steps) after ∧ after.console = machine.console

namespace Outcome.Reshaped

variable {limit : Option Int}

theorem finish (machine : Machine) : Reshaped limit machine machine.tape 0 (.finished machine) :=
  Or.inl ⟨rfl, fun positive => absurd positive (Nat.lt_irrefl 0)⟩

theorem next {machine : Machine} {tape reached : Tape} {count more : Nat} {outcome : Outcome}
    {rest : Machine → Outcome} (first : Reshaped limit machine tape count outcome)
    (second : Reshaped limit ⟨tape, machine.steps + count, machine.console⟩ reached more
      (rest ⟨tape, machine.steps + count, machine.console⟩)) :
    Reshaped limit machine reached (count + more) (outcome.next rest) := by
  rcases first with ⟨rfl, allowed⟩ | ⟨most, steps, after, limited, exceeded, rfl, console⟩
  · rw [next_finished]
    rcases second with ⟨ended, further⟩ | ⟨most, steps, after, limited, exceeded, ended, console⟩
    · refine Or.inl ⟨by rw [ended, Nat.add_assoc], fun positive most limited => ?_⟩
      rcases Nat.eq_zero_or_pos more with rfl | positiveMore
      · exact allowed positive most limited
      · have within := further positiveMore most limited
        simp only at within ⊢
        omega
    · exact Or.inr ⟨most, steps, after, limited, by simp only at exceeded; omega, ended, console⟩
  · exact Or.inr ⟨most, steps, after, limited, by omega, rfl, console⟩

theorem tick (machine : Machine) : Reshaped limit machine machine.tape 1 (machine.tick limit) := by
  rcases machine.tick_cases limit with ⟨counted, allowed⟩ | ⟨most, limited, exceeded, stopped⟩
  · exact Or.inl ⟨counted, fun _ => allowed⟩
  · exact Or.inr ⟨most, _, _, limited, by simpa using exceeded, stopped, rfl⟩

theorem tick_next {machine : Machine} {tape : Tape} {effect : Machine → Outcome}
    (change : effect { machine with steps := machine.steps + 1 } =
      .finished ⟨tape, machine.steps + 1, machine.console⟩) :
    Reshaped limit machine tape 1 ((machine.tick limit).next effect) := by
  rcases machine.tick_cases limit with ⟨counted, allowed⟩ | ⟨most, limited, exceeded, stopped⟩
  · rw [counted, next_finished, change]
    exact Or.inl ⟨rfl, fun _ => allowed⟩
  · rw [stopped, next_halted]
    exact Or.inr ⟨most, _, _, limited, by simpa using exceeded, rfl, rfl⟩

theorem finished_of_allowed {machine : Machine} {tape : Tape} {count : Nat} {outcome : Outcome}
    (reshaped : Reshaped limit machine tape count outcome)
    (room : ∀ most, limit = some most → ((machine.steps + count : Nat) : Int) ≤ most) :
    outcome = .finished ⟨tape, machine.steps + count, machine.console⟩ := by
  rcases reshaped with ⟨ended, _⟩ | ⟨most, _, _, limited, exceeded, _⟩
  · exact ended
  · have enough := room most limited
    omega

end Outcome.Reshaped

namespace Node

variable {Hole : Type}

mutual

theorem execute_silent (setup : Setup) (fuel : Nat) (tree : Node Hole) (silent : tree.IsSilent)
    (machine : Machine) :
    (tree.execute setup fuel machine).Reshaped setup.stepLimit machine
      (tree.reshape machine.tape) tree.size := by
  rw [execute_eq]
  match tree with
  | .move _ | .add _ | .set _ | .addTo _ => exact .tick_next rfl
  | .block children =>
      exact (Outcome.Reshaped.tick machine).next
        (executeAll_silent setup fuel children silent { machine with steps := machine.steps + 1 })

theorem executeAll_silent (setup : Setup) (fuel : Nat) (nodes : List (Node Hole))
    (silent : AllSilent nodes) (machine : Machine) :
    (executeAll setup fuel nodes machine).Reshaped setup.stepLimit machine
      (reshapeAll nodes machine.tape) (sizeAll nodes) := by
  match nodes with
  | [] =>
      rw [executeAll_nil]
      exact .finish machine
  | node :: rest =>
      rw [executeAll_cons]
      exact (execute_silent setup fuel node silent.1 machine).next
        (executeAll_silent setup fuel rest silent.2 _)

end

mutual

theorem reshape_alike (tree : Node Hole) {tape other : Tape} (alike : tape.Alike other) :
    (tree.reshape tape).Alike (tree.reshape other) := by
  match tree with
  | .move distance => exact alike.move distance
  | .add amount =>
      rw [reshape, reshape, alike.current]
      exact alike.setCurrent _
  | .set value => exact alike.setCurrent value
  | .addTo offset =>
      rw [reshape, reshape, alike.current, alike.get]
      exact alike.set offset _
  | .block children => exact reshapeAll_alike children alike
  | .print | .read | .loop _ | .hole _ => exact alike

theorem reshapeAll_alike (nodes : List (Node Hole)) {tape other : Tape}
    (alike : tape.Alike other) : (reshapeAll nodes tape).Alike (reshapeAll nodes other) := by
  match nodes with
  | [] => exact alike
  | node :: rest => exact reshapeAll_alike rest (reshape_alike node alike)

end

mutual

theorem reshape_holdsBytes (tree : Node Hole) (sets : tree.SetsBytes) {tape : Tape}
    (bytes : tape.HoldsBytes) : (tree.reshape tape).HoldsBytes := by
  match tree with
  | .move distance => exact bytes.move distance
  | .add _ => exact bytes.setCurrent (inside_cell _)
  | .set _ => exact bytes.setCurrent sets
  | .addTo offset => exact bytes.set offset (inside_cell _)
  | .block children => exact reshapeAll_holdsBytes children sets.2 bytes
  | .print | .read | .loop _ | .hole _ => exact bytes

theorem reshapeAll_holdsBytes (nodes : List (Node Hole)) (sets : EverywhereAll SetsByte nodes)
    {tape : Tape} (bytes : tape.HoldsBytes) : (reshapeAll nodes tape).HoldsBytes := by
  match nodes with
  | [] => exact bytes
  | node :: rest =>
      exact reshapeAll_holdsBytes rest sets.2 (reshape_holdsBytes node sets.1 bytes)

end

/-- Silent sequences that change every tape of bytes alike. -/
structure SameShape (nodes others : List (Node Hole)) : Prop where
  silent : AllSilent nodes
  alsoSilent : AllSilent others
  alike : ∀ tape : Tape, tape.HoldsBytes → (reshapeAll nodes tape).Alike (reshapeAll others tape)

theorem RefinedBy.silent {nodes others : List (Node Hole)} (same : SameShape nodes others)
    (sets : EverywhereAll SetsByte nodes) (positive : 0 < sizeAll nodes)
    (fewer : sizeAll others ≤ sizeAll nodes) : RefinedBy nodes others := by
  intro setup fuel machine other matched
  have steps := matched.steps
  rcases executeAll_silent setup fuel nodes same.silent machine with
    ⟨ended, allowed⟩ | ⟨_, _, after, _, _, stopped, console⟩
  · have finished := (executeAll_silent setup fuel others same.alsoSilent other).finished_of_allowed
      (by
        intro most limited
        have within := allowed positive most limited
        simp only at within
        omega)
    rw [ended, finished]
    exact .finished ⟨reshapeAll_holdsBytes nodes sets matched.bytes,
      (same.alike machine.tape matched.bytes).trans (reshapeAll_alike others matched.alike),
      matched.console, by simp only; omega⟩
  · rw [stopped]
    refine .of_output (by simp) ?_
    rw [console, matched.output]
    exact (executeAll_precedes setup fuel others other).output

end Node

end TapeTree
