import TapeTree.Proofs.Optimize.Shapes

/-! Trees that pay for their loops in advance. Before a loop they count as many steps as what the
optimizer puts in its place may take, so in this measure no rewriting makes a run longer. -/

namespace TapeTree

namespace Machine

def pay (limit : Option Int) : Nat → Machine → Outcome
  | 0, machine => .finished machine
  | count + 1, machine => (machine.tick limit).next (pay limit count)

theorem pay_reshaped (limit : Option Int) (count : Nat) (machine : Machine) :
    (machine.pay limit count).Reshaped limit machine machine.tape count := by
  induction count generalizing machine with
  | zero => exact .finish machine
  | succ count ih =>
      have paid := (Outcome.Reshaped.tick machine).next
        (ih { machine with steps := machine.steps + 1 })
      rwa [Nat.add_comm 1 count] at paid

end Machine

namespace Node

variable {Hole : Type}

mutual

def prepaid : Node Hole → Node Hole
  | .block children => .block (prepaidAll children)
  | .loop body => .block [.move 0, .move 0, .loop (prepaid body)]
  | .move distance => .move distance
  | .add amount => .add amount
  | .set value => .set value
  | .print => .print
  | .read => .read
  | .addTo offset => .addTo offset
  | .hole mark => .hole mark

def prepaidAll : List (Node Hole) → List (Node Hole)
  | [] => []
  | node :: rest => prepaid node :: prepaidAll rest

end

theorem prepaidAll_append (nodes others : List (Node Hole)) :
    prepaidAll (nodes ++ others) = prepaidAll nodes ++ prepaidAll others := by
  induction nodes with
  | nil => rfl
  | cons node rest ih => simp only [List.cons_append, prepaidAll, ih]

mutual

theorem prepaid_of_silent {node : Node Hole} (silent : node.IsSilent) : node.prepaid = node := by
  match node with
  | .move _ | .add _ | .set _ | .addTo _ => rfl
  | .block children => rw [prepaid, prepaidAll_of_silent silent]

theorem prepaidAll_of_silent {nodes : List (Node Hole)} (silent : AllSilent nodes) :
    prepaidAll nodes = nodes := by
  match nodes with
  | [] => rfl
  | node :: rest => rw [prepaidAll, prepaid_of_silent silent.1, prepaidAll_of_silent silent.2]

end

mutual

theorem prepaid_setsBytes (tree : Node Hole) (sets : tree.SetsBytes) :
    tree.prepaid.SetsBytes := by
  match tree with
  | .block children => exact ⟨trivial, prepaidAll_setsBytes children sets.2⟩
  | .loop body =>
      exact ⟨trivial, trivial, trivial, ⟨trivial, prepaid_setsBytes body sets.2⟩, trivial⟩
  | .move _ | .add _ | .set _ | .print | .read | .addTo _ | .hole _ => exact sets

theorem prepaidAll_setsBytes (nodes : List (Node Hole))
    (sets : EverywhereAll SetsByte nodes) : EverywhereAll SetsByte (prepaidAll nodes) := by
  match nodes with
  | [] => trivial
  | node :: rest => exact ⟨prepaid_setsBytes node sets.1, prepaidAll_setsBytes rest sets.2⟩

end

theorem execute_prepaid_loop (setup : Setup) (fuel : Nat) (body : Node Hole)
    (machine : Machine) :
    (prepaid (.loop body)).execute setup fuel machine =
      (machine.pay setup.stepLimit 4).next fun paid =>
        paid.rounds setup.stepLimit (body.prepaid.execute setup fuel) fuel := by
  have idle (rest : List (Node Hole)) : executeAll setup fuel (.move 0 :: rest) =
      fun machine => (machine.tick setup.stepLimit).next (executeAll setup fuel rest) := by
    funext machine
    rw [executeAll_cons, execute_eq, Outcome.next_assoc]
    simp [effect, Machine.move, Tape.move_zero]
  have last : executeAll setup fuel [.loop body.prepaid] =
      fun machine => (machine.tick setup.stepLimit).next fun paid =>
        paid.rounds setup.stepLimit (body.prepaid.execute setup fuel) fuel := by
    funext machine
    rw [executeAll_singleton, execute_eq]
    rfl
  calc (prepaid (.loop body)).execute setup fuel machine
    _ = (machine.tick setup.stepLimit).next
          (executeAll setup fuel [.move 0, .move 0, .loop body.prepaid]) := by
        rw [execute_eq]
        rfl
    _ = _ := by
        rw [idle, idle, last]
        simp only [Machine.pay, Outcome.next_assoc, Outcome.next_finished]

mutual

theorem execute_followedBy_prepaid (setup : Setup) (fuel : Nat) (tree : Node Hole)
    (sets : tree.SetsBytes) {machine other : Machine} (matched : machine.Matches 4 other) :
    (tree.execute setup fuel machine).FollowedBy 4
      (tree.prepaid.execute (setup.scaled 4) fuel other) := by
  have ticked := matched.tick (by decide) setup
  match tree with
  | .block children =>
      rw [execute_eq, prepaid, execute_eq]
      exact ticked.next
        (fun _ _ met => executeAll_followedBy_prepaid setup fuel children sets.2 met)
        (executeAll_precedes _ fuel _)
  | .loop body =>
      rw [execute_eq, execute_prepaid_loop]
      rcases machine.tick_cases setup.stepLimit with ⟨counted, allowed⟩ | ⟨_, _, _, exceeded⟩
      · have steps := matched.steps
        have paid := (Machine.pay_reshaped (setup.scaled 4).stepLimit 4 other).finished_of_allowed
          (by
            intro most limited
            obtain ⟨limit, some, rfl⟩ := Option.map_eq_some_iff.mp limited
            have within := allowed limit some
            simp only at within
            omega)
        rw [counted, paid, Outcome.next_finished, Outcome.next_finished]
        refine (followedBy_coupling (by decide) setup).rounds (fun _ _ followed => ?_)
          (execute_precedes _ fuel body.prepaid) (Nat.le_refl fuel) (.finished ?_)
        · exact execute_followedBy_prepaid setup fuel body sets.2 followed.matches_of_finished
        · exact ⟨matched.bytes, matched.alike, matched.console, by simp only; omega⟩
      · rw [exceeded]
        refine .of_output (by simp) ?_
        rw [matched.output, ← execute_prepaid_loop]
        exact (execute_precedes _ fuel _ other).output
  | .move _ | .add _ | .set _ | .print | .read | .addTo _ | .hole _ =>
      rw [execute_eq, prepaid, execute_eq]
      exact ticked.next (fun _ _ met => effect_followedBy setup fuel (by trivial) sets met)
        (effect_precedes _ fuel _)

theorem executeAll_followedBy_prepaid (setup : Setup) (fuel : Nat) (nodes : List (Node Hole))
    (sets : EverywhereAll SetsByte nodes) {machine other : Machine}
    (matched : machine.Matches 4 other) :
    (executeAll setup fuel nodes machine).FollowedBy 4
      (executeAll (setup.scaled 4) fuel (prepaidAll nodes) other) := by
  match nodes with
  | [] =>
      rw [prepaidAll, executeAll_nil, executeAll_nil]
      exact .finished matched
  | node :: rest =>
      rw [prepaidAll, executeAll_cons, executeAll_cons]
      exact (execute_followedBy_prepaid setup fuel node sets.1 matched).next
        (fun _ _ met => executeAll_followedBy_prepaid setup fuel rest sets.2 met)
        (executeAll_precedes _ fuel _)

end

theorem RefinedBy.idle {node : Node Hole} (idle : node.isIdle) : RefinedBy [node] [] := by
  cases node with
  | move | add =>
      exact .silent (idle_sameShape idle) ⟨trivial, trivial⟩ Nat.one_pos (Nat.zero_le 1)
  | _ => simp [isIdle] at idle

mutual

theorem prepaid_refinedBy (tree : Node Hole) (sets : tree.SetsBytes) :
    RefinedBy [tree.prepaid] [tree] := by
  match tree with
  | .block children => exact (prepaidAll_refinedBy children sets.2).block
  | .loop body =>
      have idle : RefinedBy [(.move 0 : Node Hole)] [] := .idle (by simp [isIdle])
      exact (idle.append (idle.append (prepaid_refinedBy body sets.2).loop)).unblock
  | .move _ | .add _ | .set _ | .print | .read | .addTo _ | .hole _ =>
      exact .refl ⟨sets, trivial⟩

theorem prepaidAll_refinedBy (nodes : List (Node Hole)) (sets : EverywhereAll SetsByte nodes) :
    RefinedBy (prepaidAll nodes) nodes := by
  match nodes with
  | [] => exact .refl trivial
  | node :: rest =>
      exact (prepaid_refinedBy node sets.1).append (prepaidAll_refinedBy rest sets.2)

end

end Node

end TapeTree
