import TapeTree.Optimize.Normal
import TapeTree.Optimize.Passes
import TapeTree.Proofs.Tree.Everywhere

/-! What the optimizer can put in the place of nodes: merged nodes, the forms of the nodes
themselves and replaced loops. None of these is idle, and the blocks among them are flat. -/

namespace TapeTree.Node

variable {Hole : Type}

theorem merge?_eq_some {first second merged : Node Hole}
    (found : merge? first second = some merged) :
    (∃ a b, first = .add a ∧ second = .add b ∧ merged = .add ((a + b) % cellSize)) ∨
    (∃ a b, first = .move a ∧ second = .move b ∧ merged = .move (a + b)) ∨
    (∃ a b, first = .set a ∧ second = .add b ∧ merged = .set ((a + b) % cellSize)) ∨
    ∃ a b, first = .set a ∧ second = .set b ∧ merged = .set b := by
  unfold merge? at found
  split at found <;> cases found <;> simp

theorem merge?_isInstruction {first second merged : Node Hole}
    (found : merge? first second = some merged) : merged.IsInstruction := by
  rcases merge?_eq_some found with
    ⟨_, _, _, _, rfl⟩ | ⟨_, _, _, _, rfl⟩ | ⟨_, _, _, _, rfl⟩ | ⟨_, _, _, _, rfl⟩ <;> trivial

theorem transfer?_eq_some {children : List (Node Hole)} {stand : Node Hole}
    (found : transfer? children = some stand) :
    (∃ out back, children = [.add (cellSize - 1), .move out, .add 1, .move back] ∧
      out + back = 0 ∧ stand = .block [.addTo out, .set 0]) ∨
    ∃ out further back, children =
      [.add (cellSize - 1), .move out, .add 1, .move further, .add 1, .move back] ∧
      out + further + back = 0 ∧
      stand = .block [.addTo out, .addTo (out + further), .set 0] := by
  unfold transfer? at found
  split at found
  · rename_i down out up back
    split at found
    · rename_i conditions
      obtain ⟨rfl, rfl, turn⟩ := conditions
      cases found
      exact Or.inl ⟨out, back, rfl, by omega, rfl⟩
    · cases found
  · rename_i down out up further again back
    split at found
    · rename_i conditions
      obtain ⟨rfl, rfl, rfl, turn⟩ := conditions
      cases found
      exact Or.inr ⟨out, further, back, rfl, by omega, rfl⟩
    · cases found
  · cases found

theorem mem_hold {next held : Candidate Hole} (present : next.hold = some held) : held = next := by
  unfold Candidate.hold at present
  split at present
  · cases present
  · cases present
    rfl

theorem mem_holdMerged {merged : Node Hole} {held : Candidate Hole}
    (present : holdMerged merged = some held) :
    ¬ merged.isIdle ∧ held = ⟨merged, some merged⟩ := by
  unfold holdMerged at present
  split at present
  · cases present
  · rename_i active
    cases present
    exact ⟨active, rfl⟩

/-- What holds of the forms of all nodes and of merged nodes holds of what is emitted. -/
theorem foldHeld_forms {property : Node Hole → Prop}
    (merged : ∀ first second node : Node Hole, merge? first second = some node → ¬ node.isIdle →
      property node)
    (held : Option (Candidate Hole)) (rest : List (Candidate Hole))
    (heldForms : ∀ one, held = some one → ∀ form, one.form = some form → property form)
    (restForms : ∀ one ∈ rest, ∀ form, one.form = some form → property form) :
    ∀ node ∈ foldHeld held rest, property node := by
  induction rest generalizing held with
  | nil =>
      cases held with
      | none => simp [foldHeld]
      | some held =>
          intro node emitted
          rw [foldHeld, Option.mem_toList] at emitted
          exact heldForms held rfl node emitted
  | cons next rest ih =>
      have nextForms : ∀ one, next.hold = some one → ∀ form, one.form = some form →
          property form := by
        intro one present
        rw [mem_hold present]
        exact restForms next (by simp)
      have othersForms (one : Candidate Hole) (member : one ∈ rest) :=
        restForms one (by simp [member])
      cases held with
      | none => exact ih next.hold nextForms othersForms
      | some held =>
          unfold foldHeld
          split
          · exact ih (some held) heldForms othersForms
          · split
            · rename_i both found
              refine ih (holdMerged both) ?_ othersForms
              intro one present form same
              obtain ⟨active, rfl⟩ := mem_holdMerged present
              cases same
              exact merged _ _ _ found active
            · intro node emitted
              rw [List.mem_append, Option.mem_toList] at emitted
              rcases emitted with here | later
              · exact heldForms held rfl node here
              · exact ih next.hold nextForms othersForms node later

/-! Optimized forms have no idle node, and the blocks in them are flat. -/

def Active (node : Node Hole) : Prop :=
  ¬ node.isIdle

theorem transfer?_eq_some_of_active {children : List (Node Hole)} {stand : Node Hole}
    (found : transfer? children = some stand) (active : ∀ child ∈ children, child.Active) :
    (∃ out back, children = [.add (cellSize - 1), .move out, .add 1, .move back] ∧
      out ≠ 0 ∧ back ≠ 0 ∧ out + back = 0 ∧ stand = .block [.addTo out, .set 0]) ∨
    ∃ out further back, children =
      [.add (cellSize - 1), .move out, .add 1, .move further, .add 1, .move back] ∧
      out ≠ 0 ∧ further ≠ 0 ∧ back ≠ 0 ∧ out + further + back = 0 ∧
      stand = .block [.addTo out, .addTo (out + further), .set 0] := by
  have moves (distance : Int) (member : .move distance ∈ children) : distance ≠ 0 := by
    simpa [Active, isIdle] using active _ member
  rcases transfer?_eq_some found with
    ⟨out, back, rfl, home, rfl⟩ | ⟨out, further, back, rfl, home, rfl⟩
  · exact Or.inl ⟨out, back, rfl, moves out (by simp), moves back (by simp), home, rfl⟩
  · exact Or.inr ⟨out, further, back, rfl, moves out (by simp), moves further (by simp),
      moves back (by simp), home, rfl⟩

/-- A node that is no hole and does something. A block has more than one child, and no block is
among them. -/
def Tidy : Node Hole → Prop
  | .block children => 2 ≤ children.length ∧ ∀ child ∈ children, ¬ IsBlock child
  | .move distance => distance ≠ 0
  | .add amount => amount ≠ 0
  | .set _ | .print | .read | .loop _ | .addTo _ => True
  | .hole _ => False

theorem Tidy.active {node : Node Hole} (tidy : node.Tidy) : node.Active := by
  cases node <;> simp_all [Tidy, Active, isIdle]

theorem merge?_tidy {first second merged : Node Hole}
    (found : merge? first second = some merged) (active : ¬ merged.isIdle) :
    merged.Everywhere Tidy := by
  rcases merge?_eq_some found with
    ⟨_, _, _, _, rfl⟩ | ⟨_, _, _, _, rfl⟩ | ⟨_, _, _, _, rfl⟩ | ⟨_, _, _, _, rfl⟩
  · simpa [Everywhere, Tidy, isIdle] using active
  · simpa [Everywhere, Tidy, isIdle] using active
  · trivial
  · trivial

theorem spliced_tidy {node : Node Hole} (tidy : node.Everywhere Tidy) :
    ∀ child ∈ spliced node, child.Everywhere Tidy ∧ ¬ IsBlock child := by
  cases node with
  | block children =>
      -- splicing goes one level deep, so it is up to the block that was made before to be flat
      intro child member
      exact ⟨(everywhereAll_iff Tidy children).mp tidy.2 child member, tidy.1.2 child member⟩
  | _ => simpa [spliced, IsBlock] using tidy

theorem combine_tidy {candidates : List (Candidate Hole)}
    (tidy : ∀ one ∈ candidates, ∀ form, one.form = some form → form.Everywhere Tidy) :
    ∀ node ∈ combine candidates, node.Everywhere Tidy ∧ ¬ IsBlock node := by
  intro node member
  obtain ⟨emitted, emittedMember, inside⟩ := List.mem_flatMap.mp member
  have whole : emitted.Everywhere Tidy :=
    foldHeld_forms (fun _ _ _ => merge?_tidy) none candidates (by simp) tidy emitted emittedMember
  exact spliced_tidy whole node inside

theorem ofSequence?_tidy {nodes : List (Node Hole)}
    (tidy : ∀ node ∈ nodes, node.Everywhere Tidy ∧ ¬ IsBlock node) {form : Node Hole}
    (found : ofSequence? nodes = some form) : form.Everywhere Tidy := by
  match nodes, tidy with
  | [], _ => cases found
  | [node], tidy =>
      cases found
      exact (tidy form (by simp)).1
  | first :: second :: rest, tidy =>
      cases found
      refine ⟨⟨by simp, fun child member => (tidy child member).2⟩, ?_⟩
      exact (everywhereAll_iff Tidy _).mpr fun child member => (tidy child member).1

theorem ofBody?_tidy {body : Option (Node Hole)}
    (tidy : ∀ inner, body = some inner → inner.Everywhere Tidy) {form : Node Hole}
    (found : ofBody? body = some form) : form.Everywhere Tidy := by
  unfold ofBody? at found
  split at found
  · cases found
  · rename_i inner
    have inside := tidy inner rfl
    split at found
    · cases found
      trivial
    · split at found
      · rename_i children _
        cases replaced : transfer? children with
        | none =>
            rw [replaced] at found
            cases found
            exact ⟨trivial, inside⟩
        | some stand =>
            rw [replaced] at found
            cases found
            rcases transfer?_eq_some replaced with
              ⟨out, back, _, _, rfl⟩ | ⟨out, further, back, _, _, rfl⟩ <;>
            simp [Everywhere, EverywhereAll, Tidy, IsBlock]
      · cases found
        exact ⟨trivial, inside⟩

mutual

theorem optimize_tidy (tree : Node Hole) :
    ∀ form, optimize tree = some form → form.Everywhere Tidy := by
  intro form found
  match tree with
  | .block children =>
      rw [optimize] at found
      exact ofSequence?_tidy (combine_tidy (candidates_tidy children)) found
  | .loop body =>
      rw [optimize] at found
      exact ofBody?_tidy (optimize_tidy body) found
  | .move _ | .add _ =>
      unfold optimize at found
      split at found
      · cases found
      · rename_i active
        cases found
        exact active
  | .set _ | .print | .read | .addTo _ =>
      rw [optimize] at found
      cases found
      trivial
  | .hole _ =>
      rw [optimize] at found
      cases found

theorem candidates_tidy (nodes : List (Node Hole)) :
    ∀ one ∈ candidates nodes, ∀ form, one.form = some form → form.Everywhere Tidy := by
  match nodes with
  | [] => simp [candidates]
  | node :: rest =>
      intro one member
      rw [candidates, List.mem_cons] at member
      rcases member with rfl | later
      · exact optimize_tidy node
      · exact candidates_tidy rest one later

end

theorem optimize_active (tree : Node Hole) :
    ∀ form, optimize tree = some form → form.Everywhere Active := by
  intro form found
  exact Everywhere.mono (fun _ => Tidy.active) form (optimize_tidy tree form found)

end TapeTree.Node
