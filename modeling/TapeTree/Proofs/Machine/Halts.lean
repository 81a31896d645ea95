import TapeTree.Proofs.Machine.Limits
import TapeTree.Proofs.Machine.Sessions

/-! How runs can end whose trees have no holes and whose cells hold bytes: they finish, or a call
fails, or a limit that is there stops them. -/

namespace TapeTree

structure Outcome.RanWithin (limit : Option Int) (outcome : Outcome) : Prop where
  whole : outcome.halt? ≠ some .hole
  limited : ∀ most steps, outcome.halt? = some (.stepLimit most steps) → limit = some most

theorem Outcome.ranWithin_finished (limit : Option Int) (machine : Machine) :
    (finished machine).RanWithin limit := by
  constructor
  · simp [halt?]
  · intro most steps stopped
    cases stopped

theorem ranWithin_lasting (limit : Option Int) :
    Lasting limit fun _ outcome => outcome.RanWithin limit where
  here := Outcome.ranWithin_finished limit
  next := fun _ rest => rest
  tick := by
    intro machine
    rcases machine.tick_cases limit with ⟨counted, _⟩ | ⟨most, limited, _, exceeded⟩
    · rw [counted]
      exact Outcome.ranWithin_finished limit _
    · rw [exceeded]
      constructor
      · simp [Outcome.halt?]
      · rintro _ _ ⟨⟩
        exact limited
  starved := by
    intro machine
    constructor
    · simp [Outcome.halt?]
    · intro most steps stopped
      cases stopped

namespace Node

theorem effect_whole (setup : Setup) (fuel : Nat) {node : Tree} (instruction : node.IsInstruction)
    (machine : Machine) : (node.effect setup fuel machine).halt? ≠ some .hole := by
  intro missing
  rcases (effect_acts setup fuel instruction machine).halts missing with
    ⟨_, other⟩ | ⟨_, _, other⟩ | ⟨⟨mark, _⟩, _⟩
  · cases other
  · cases other
  · exact mark.elim

theorem execute_ranWithin (setup : Setup) (fuel : Nat) (tree : Tree) (machine : Machine) :
    (tree.execute setup fuel machine).RanWithin setup.stepLimit := by
  apply execute_lasts (ranWithin_lasting setup.stepLimit)
  apply everywhere_of_forall
  intro node instruction start
  constructor
  · exact effect_whole setup fuel instruction start
  · intro most steps stopped
    exact absurd ⟨most, steps, stopped⟩ (effect_not_overLimit setup instruction start)

theorem Ends.halt_cases {setup : Setup} {tree : Tree} (sets : tree.SetsBytes) {machine : Machine}
    (bytes : machine.tape.HoldsBytes) {outcome : Outcome}
    (ends : tree.Ends setup machine outcome) :
    (∃ cause : Option IoFault, outcome.halt? = cause.map Halt.fault) ∨
      ∃ most steps, setup.stepLimit = some most ∧
        outcome.halt? = some (.stepLimit most steps) := by
  obtain ⟨fed, fuel, rfl⟩ := ends
  have keeps := execute_keepsBytes setup fuel sets bytes
  have ran := tree.execute_ranWithin setup fuel machine
  cases halted : (tree.execute setup fuel machine).halt? with
  | none => exact Or.inl ⟨none, rfl⟩
  | some halt =>
      cases halt with
      | fault cause => exact Or.inl ⟨some cause, rfl⟩
      | stepLimit most steps => exact Or.inr ⟨most, steps, ran.limited most steps halted, rfl⟩
      | notByte value => exact absurd halted (keeps.printed value)
      | hole => exact absurd halted ran.whole
      | outOfFuel => exact absurd halted fed

end Node

end TapeTree
