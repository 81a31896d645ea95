import TapeTree.Proofs.Optimize.Prepaid
import TapeTree.Proofs.Optimize.Rewriting

/-! The rewritings of the optimizer keep what programs do: a run can be followed after each of
them, and with loops paid in advance it takes no more steps. -/

namespace TapeTree.Node

variable {Hole : Type}

/-- Runs of the second sequence can stand for runs of the first when both pay in advance. -/
def Improves (nodes others : List (Node Hole)) : Prop :=
  RefinedBy (prepaidAll nodes) (prepaidAll others)

/-! Replaced loops. -/

theorem rounds_silent_followedBy {setup : Setup} {fuel : Nat} {body : Node Hole}
    (silent : body.IsSilent) {other : Machine} (kept : Tape → Prop)
    (round : ∀ tape : Tape, kept tape → tape.current ≠ 0 → kept (body.reshape tape))
    (leave : ∀ tape : Tape, kept tape → tape.current = 0 → tape.HoldsBytes ∧ tape.Alike other.tape)
    {machine : Machine} (start : kept machine.tape) (console : machine.console = other.console)
    (steps : other.steps ≤ machine.steps) (count : Nat) :
    (machine.rounds setup.stepLimit (body.execute setup fuel) count).FollowedBy 1
      (.finished other) := by
  refine Machine.rounds_followedBy
    (fun machine => kept machine.tape ∧ machine.console = other.console ∧
      other.steps ≤ machine.steps) ?_ ?_ ?_ count ⟨start, console, steps⟩
  · rintro machine ⟨keeps, console, steps⟩ zero
    obtain ⟨bytes, alike⟩ := leave machine.tape keeps zero
    exact .finished ⟨bytes, alike, console, by omega⟩
  · rintro machine ⟨_, console, _⟩
    simp [console]
  · rintro machine ⟨keeps, console, steps⟩ more
    rcases execute_silent setup fuel body silent { machine with steps := machine.steps + 1 } with
      ⟨ended, _⟩ | ⟨_, _, after, _, _, stopped, sameConsole⟩
    · exact Or.inl ⟨_, ended, round machine.tape keeps more, console, by simp only; omega⟩
    · refine Or.inr ⟨_, after, stopped, .of_output (by simp) ?_⟩
      rw [sameConsole]
      simp [console]

/-- A node that costs no more than was paid can take the place of a loop. -/
theorem StandsFor.refinedBy {stand body : Node Hole} (stands : StandsFor stand body) :
    RefinedBy [prepaid (.loop body)] [stand] := by
  intro setup fuel machine other matched
  have steps := matched.steps
  have small := stands.small
  rw [executeAll_singleton, executeAll_singleton, execute_prepaid_loop,
    prepaid_of_silent stands.silent]
  rcases Machine.pay_reshaped setup.stepLimit 4 machine with
    ⟨paid, allowed⟩ | ⟨_, _, after, _, _, stopped, console⟩
  · have finished := (execute_silent setup fuel stand stands.alsoSilent other).finished_of_allowed
      (by
        intro most limited
        have within := allowed (by decide) most limited
        simp only at within
        omega)
    have reshaped := reshape_alike stand matched.alike
    rw [paid, finished, Outcome.next_finished]
    refine rounds_silent_followedBy stands.silent
      (fun tape => tape.HoldsBytes ∧ (stand.reshape tape).Alike (stand.reshape other.tape))
      ?_ ?_ ?_ ?_ ?_ fuel
    · rintro tape ⟨bytes, alike⟩ _
      exact ⟨reshape_holdsBytes body stands.sets bytes, (stands.absorbed tape).trans alike⟩
    · rintro tape ⟨bytes, alike⟩ zero
      exact ⟨bytes, (stands.passed tape bytes zero).symm.trans alike⟩
    · exact ⟨matched.bytes, reshaped⟩
    · exact matched.console
    · simp only
      omega
  · rw [stopped, Outcome.next_halted]
    refine .of_output (by simp) ?_
    rw [console, matched.output]
    exact (execute_precedes setup fuel stand other).output

/-! The rewritings. -/

namespace Improves

theorem refl {nodes : List (Node Hole)} (sets : EverywhereAll SetsByte nodes) :
    Improves nodes nodes :=
  RefinedBy.refl (prepaidAll_setsBytes nodes sets)

theorem trans {first second third : List (Node Hole)} (left : Improves first second)
    (right : Improves second third) : Improves first third :=
  RefinedBy.trans left right

theorem append {nodes others rest further : List (Node Hole)} (front : Improves nodes others)
    (back : Improves rest further) : Improves (nodes ++ rest) (others ++ further) := by
  unfold Improves
  rw [prepaidAll_append, prepaidAll_append]
  exact RefinedBy.append front back

theorem block {nodes others : List (Node Hole)} (better : Improves nodes others) :
    Improves [.block nodes] [.block others] :=
  RefinedBy.block better

theorem unblock {nodes others : List (Node Hole)} (better : Improves nodes others) :
    Improves [.block nodes] others :=
  RefinedBy.unblock better

theorem idle {node : Node Hole} (idle : node.isIdle) : Improves [node] [] := by
  have same : node.prepaid = node := by cases node <;> first | rfl | simp [isIdle] at idle
  simp only [Improves, prepaidAll, same]
  exact RefinedBy.idle idle

theorem hole (mark : Hole) : Improves [.hole mark] [] :=
  RefinedBy.of_effect fun _ _ _ _ matched =>
    .of_output (by simp) (by simp [prepaidAll, matched.output])

theorem loop {body another : Node Hole} (better : Improves [body] [another]) :
    Improves [.loop body] [.loop another] := by
  have front : RefinedBy ([.move 0, .move 0] : List (Node Hole)) [.move 0, .move 0] :=
    .refl ⟨trivial, trivial, trivial⟩
  exact (front.append (RefinedBy.loop better)).block

theorem loop_nil {body : Node Hole} (better : Improves [body] []) : Improves [.loop body] [] := by
  have idle : RefinedBy [(.move 0 : Node Hole)] [] := .idle (by simp [isIdle])
  exact (idle.append (idle.append (RefinedBy.loop_nil better))).unblock

theorem merged {first second merged : Node Hole} (found : merge? first second = some merged)
    (setsFirst : first.SetsByte) (setsSecond : second.SetsByte) :
    Improves [first, second] [merged] := by
  have same := merged_sameShape found
  rcases merge?_eq_some found with
    ⟨a, b, rfl, rfl, rfl⟩ | ⟨a, b, rfl, rfl, rfl⟩ | ⟨a, b, rfl, rfl, rfl⟩ |
    ⟨a, b, rfl, rfl, rfl⟩ <;>
  exact RefinedBy.silent same ⟨setsFirst, setsSecond, trivial⟩ Nat.two_pos (Nat.le_succ 1)

theorem replaced {stand body : Node Hole} (stands : StandsFor stand body) :
    Improves [.loop body] [stand] := by
  have refined := stands.refinedBy
  rwa [← prepaid_of_silent stands.alsoSilent] at refined

end Improves

theorem Rewrites.improves {erases : Prop} {nodes others : List (Node Hole)}
    (rewrites : Rewrites erases nodes others) (sets : EverywhereAll SetsByte nodes) :
    Improves nodes others := by
  induction rewrites with
  | refl => exact .refl sets
  | trans front _ left right =>
      exact (left sets).trans (right (front.everywhereAll setsByte_maintained sets))
  | append _ _ front back =>
      rw [everywhereAll_append] at sets
      exact (front sets.1).append (back sets.2)
  | block _ inside => exact (inside sets.1.2).block
  | loop _ inside => exact (inside ⟨sets.1.2, trivial⟩).loop
  | unblock => exact (Improves.refl sets.1.2).unblock
  | idle idle => exact .idle idle
  | hole mark => exact .hole mark
  | merged found => exact .merged found sets.1.here sets.2.1.here
  | erased _ _ inside => exact (inside ⟨sets.1.2, trivial⟩).loop_nil
  | cleared clearing => exact .replaced (clears_standsFor clearing)
  | transferred found active =>
      exact .replaced (transfer?_standsFor found (leadsAway_of_active found active))

end TapeTree.Node
