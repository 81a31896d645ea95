import TapeTree.Proofs.Optimize.Forms

/-! The optimizer as a sequence of small rewritings, each of a few nodes in their place. What every
rewriting keeps, a pass keeps. -/

namespace TapeTree.Node

variable {Hole : Type}

/-- What can become of a sequence of nodes. A loop around nothing may be erased if `erases`. -/
inductive Rewrites (erases : Prop) : List (Node Hole) → List (Node Hole) → Prop
  | refl (nodes) : Rewrites erases nodes nodes
  | trans {first second third} : Rewrites erases first second → Rewrites erases second third →
      Rewrites erases first third
  | append {nodes others rest further} : Rewrites erases nodes others →
      Rewrites erases rest further → Rewrites erases (nodes ++ rest) (others ++ further)
  | block {nodes others} : Rewrites erases nodes others →
      Rewrites erases [.block nodes] [.block others]
  | loop {body another} : Rewrites erases [body] [another] →
      Rewrites erases [.loop body] [.loop another]
  | unblock (nodes) : Rewrites erases [.block nodes] nodes
  | idle {node} : node.isIdle → Rewrites erases [node] []
  | hole (mark) : Rewrites erases [.hole mark] []
  | merged {first second merged} : merge? first second = some merged →
      Rewrites erases [first, second] [merged]
  | erased {body} : erases → Rewrites erases [body] [] → Rewrites erases [.loop body] []
  | cleared {body} : body.clears → Rewrites erases [.loop body] [.set 0]
  | transferred {children stand} : transfer? children = some stand →
      (∀ child ∈ children, child.Active) → Rewrites erases [.loop (.block children)] [stand]

def KeepsLoop : Node Hole → Prop
  | .loop body => optimize body ≠ none
  | _ => True

variable {erases : Prop}

def Candidate.Rewritten (erases : Prop) (candidate : Candidate Hole) : Prop :=
  Rewrites erases [candidate.node] candidate.form.toList

theorem hold_rewrites (next : Candidate Hole) :
    Rewrites erases [next.node] (next.hold.toList.map Candidate.node) := by
  unfold Candidate.hold
  split
  · rename_i mark same
    rw [same]
    exact .hole mark
  · exact .refl _

theorem holdMerged_rewrites (merged : Node Hole) :
    Rewrites erases [merged] ((holdMerged merged).toList.map Candidate.node) := by
  unfold holdMerged
  split
  · rename_i idle
    exact .idle idle
  · exact .refl _

theorem hold_rewritten {next held : Candidate Hole} (present : next.hold = some held)
    (rewritten : next.Rewritten erases) : held.Rewritten erases := by
  rwa [mem_hold present]

theorem holdMerged_rewritten {merged : Node Hole} {held : Candidate Hole}
    (present : holdMerged merged = some held) : held.Rewritten erases := by
  obtain ⟨_, rfl⟩ := mem_holdMerged present
  exact .refl [merged]

theorem foldHeld_rewrites (held : Option (Candidate Hole)) (rest : List (Candidate Hole))
    (heldForm : ∀ one, held = some one → one.Rewritten erases)
    (restForms : ∀ one ∈ rest, one.Rewritten erases) :
    Rewrites erases (held.toList.map Candidate.node ++ rest.map Candidate.node)
      (foldHeld held rest) := by
  -- on the nodes to come, with whatever is in the slot still before them
  induction rest generalizing held with
  | nil =>
      cases held with
      | none => exact .refl _
      | some held => exact heldForm held rfl
  | cons next rest ih =>
      have othersForms (one : Candidate Hole) (member : one ∈ rest) : one.Rewritten erases :=
        restForms one (by simp [member])
      have unchanged : Rewrites erases (rest.map Candidate.node) (rest.map Candidate.node) :=
        .refl _
      have goesOn : Rewrites erases ([next.node] ++ rest.map Candidate.node)
          (foldHeld next.hold rest) := by
        refine .trans (.append (hold_rewrites next) unchanged) (ih next.hold ?_ othersForms)
        intro one present
        exact hold_rewritten present (restForms next (by simp))
      cases held with
      | none => exact goesOn
      | some held =>
          unfold foldHeld
          split
          · rename_i idle
            exact .trans (.append (.refl [held.node]) (.append (.idle idle) unchanged))
              (ih (some held) heldForm othersForms)
          · split
            · rename_i both found
              have together : Rewrites erases [held.node, next.node]
                  ((holdMerged both).toList.map Candidate.node) :=
                .trans (.merged found) (holdMerged_rewrites both)
              have front : Rewrites erases ([held.node, next.node] ++ rest.map Candidate.node) _ :=
                .append together unchanged
              exact .trans front
                (ih (holdMerged both) (fun _ => holdMerged_rewritten) othersForms)
            · exact .append (heldForm held rfl) goesOn

theorem spliced_rewrites (node : Node Hole) : Rewrites erases [node] (spliced node) := by
  cases node with
  | block children => exact .unblock children
  | _ => exact .refl _

theorem flatMap_spliced_rewrites (nodes : List (Node Hole)) :
    Rewrites erases nodes (nodes.flatMap spliced) := by
  induction nodes with
  | nil => exact .refl []
  | cons node rest ih => exact .append (spliced_rewrites node) ih

theorem ofSequence?_rewrites {nodes others : List (Node Hole)}
    (rewrites : Rewrites erases nodes others) :
    Rewrites erases [.block nodes] (ofSequence? others).toList := by
  unfold ofSequence?
  split
  · exact .trans (.unblock nodes) rewrites
  · exact .trans (.unblock nodes) rewrites
  · exact .block rewrites

theorem ofBody?_rewrites {body : Node Hole} {form : Option (Node Hole)}
    (rewrites : Rewrites erases [body] form.toList)
    (active : ∀ inner, form = some inner → inner.Everywhere Active)
    (kept : form = none → erases) : Rewrites erases [.loop body] (ofBody? form).toList := by
  cases form with
  | none => exact .erased (kept rfl) rewrites
  | some inner =>
      have around : Rewrites erases [.loop body] [.loop inner] := .loop rewrites
      have inside := active inner rfl
      unfold ofBody?
      split
      · contradiction
      · rename_i same
        cases same
        split
        · rename_i clearing
          exact .trans around (.cleared clearing)
        · split
          · rename_i children _
            cases found : transfer? children with
            | none => exact around
            | some stand =>
                refine .trans around (.transferred found ?_)
                intro child member
                exact ((everywhereAll_iff Active children).mp inside.2 child member).here
          · exact around

mutual

theorem optimize_rewrites (tree : Node Hole)
    (kept : tree.Everywhere fun node => erases ∨ node.KeepsLoop) :
    Rewrites erases [tree] (optimize tree).toList := by
  match tree with
  | .block children =>
      rw [optimize]
      have folded := foldHeld_rewrites none (candidates children) (by simp)
        (candidates_rewritten children kept.2)
      have nodes : (candidates children).map Candidate.node = children := by
        simp [candidates_eq_map, Function.comp_def]
      rw [Option.toList_none, List.map_nil, List.nil_append, nodes] at folded
      exact ofSequence?_rewrites (.trans folded (flatMap_spliced_rewrites _))
  | .loop body =>
      rw [optimize]
      refine ofBody?_rewrites (optimize_rewrites body kept.2) (optimize_active body) ?_
      intro nothing
      exact kept.1.resolve_right fun stays => stays nothing
  | .move distance =>
      by_cases idle : distance = 0
      · simpa [optimize, idle] using Rewrites.idle (by simp [isIdle])
      · simpa [optimize, idle] using Rewrites.refl _
  | .add amount =>
      by_cases idle : amount = 0
      · simpa [optimize, idle] using Rewrites.idle (by simp [isIdle])
      · simpa [optimize, idle] using Rewrites.refl _
  | .set _ | .print | .read | .addTo _ =>
      rw [optimize]
      exact .refl _
  | .hole mark =>
      rw [optimize]
      exact .hole mark

theorem candidates_rewritten (nodes : List (Node Hole))
    (kept : EverywhereAll (fun node => erases ∨ node.KeepsLoop) nodes) :
    ∀ one ∈ candidates nodes, one.Rewritten erases := by
  match nodes with
  | [] => simp [candidates]
  | node :: rest =>
      intro one member
      rw [candidates, List.mem_cons] at member
      rcases member with rfl | later
      · exact optimize_rewrites node kept.1
      · exact candidates_rewritten rest kept.2 one later

end

theorem optimize_rewrites_erasing (tree : Node Hole) :
    Rewrites True [tree] (optimize tree).toList :=
  optimize_rewrites tree (everywhere_of_forall (fun _ => Or.inl trivial) tree)

theorem pass_rewrites (tree : Node Hole) :
    Rewrites True [tree] [] ∧ pass tree = .block [] ∨ Rewrites True [tree] [pass tree] := by
  have rewrites := optimize_rewrites_erasing tree
  unfold pass
  cases found : optimize tree with
  | none =>
      rw [found] at rewrites
      exact Or.inl ⟨rewrites, rfl⟩
  | some form =>
      rw [found] at rewrites
      exact Or.inr rewrites

/-! What holds everywhere in a sequence and is kept. -/

structure Maintained (property : Node Hole → Prop) : Prop where
  merged : ∀ {first second merged}, merge? first second = some merged →
    property first → property second → property merged
  block : ∀ children, property (.block children)
  loop : ∀ body, property (.loop body)
  addTo : ∀ offset, property (.addTo offset)
  cleared : property (.set 0)

theorem Rewrites.everywhereAll {property : Node Hole → Prop} (maintained : Maintained property)
    {nodes others : List (Node Hole)} (rewrites : Rewrites erases nodes others)
    (everywhere : EverywhereAll property nodes) : EverywhereAll property others := by
  induction rewrites with
  | refl => exact everywhere
  | trans _ _ left right => exact right (left everywhere)
  | append _ _ front back =>
      rw [everywhereAll_append] at everywhere ⊢
      exact ⟨front everywhere.1, back everywhere.2⟩
  | block _ inside => exact ⟨⟨maintained.block _, inside everywhere.1.2⟩, trivial⟩
  | loop _ inside =>
      have within := inside ⟨everywhere.1.2, trivial⟩
      exact ⟨⟨maintained.loop _, within.1⟩, trivial⟩
  | unblock => exact everywhere.1.2
  | idle => trivial
  | hole => trivial
  | merged found =>
      have holds := maintained.merged found everywhere.1.here everywhere.2.1.here
      exact ⟨(everywhere_iff_of_isInstruction (merge?_isInstruction found)).mpr holds, trivial⟩
  | erased => trivial
  | cleared => exact ⟨maintained.cleared, trivial⟩
  | transferred found =>
      rcases transfer?_eq_some found with
        ⟨out, back, _, _, rfl⟩ | ⟨out, further, back, _, _, rfl⟩
      · exact ⟨⟨maintained.block _, maintained.addTo _, maintained.cleared, trivial⟩, trivial⟩
      · exact ⟨⟨maintained.block _, maintained.addTo _, maintained.addTo _, maintained.cleared,
          trivial⟩, trivial⟩

theorem pass_everywhere {property : Node Hole → Prop} (maintained : Maintained property)
    {tree : Node Hole} (everywhere : tree.Everywhere property) :
    (pass tree).Everywhere property := by
  rcases pass_rewrites tree with ⟨_, nothing⟩ | rewrites
  · rw [nothing]
    exact ⟨maintained.block [], trivial⟩
  · exact (rewrites.everywhereAll maintained ⟨everywhere, trivial⟩).1

theorem afterPasses_everywhere {property : Node Hole → Prop} (maintained : Maintained property)
    (count : Nat) {tree : Node Hole} (everywhere : tree.Everywhere property) :
    (afterPasses count tree).Everywhere property := by
  induction count generalizing tree with
  | zero => exact everywhere
  | succ count ih => exact ih (pass_everywhere maintained everywhere)

theorem setsByte_maintained : Maintained (SetsByte : Node Hole → Prop) where
  merged := by
    intro first second merged found _ setsSecond
    rcases merge?_eq_some found with
      ⟨_, _, _, _, rfl⟩ | ⟨_, _, _, _, rfl⟩ | ⟨a, b, _, _, rfl⟩ | ⟨_, _, _, rfl, rfl⟩
    · trivial
    · trivial
    · exact inside_cell _
    · exact setsSecond
  block := fun _ => trivial
  loop := fun _ => trivial
  addTo := fun _ => trivial
  cleared := by simp [SetsByte, cellSize]

end TapeTree.Node
