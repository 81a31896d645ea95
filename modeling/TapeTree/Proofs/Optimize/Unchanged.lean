import TapeTree.Optimize.Normal
import TapeTree.Proofs.Optimize.Settling

/-! Trees that a pass leaves as they are. All that a pass does to a sequence makes it smaller, so
where its size is kept, nothing was merged, erased or flattened. -/

namespace TapeTree.Node

variable {Hole : Type} {erases : Prop}

theorem merge?_eq_none_iff {first second : Node Hole} :
    merge? first second = none ↔ ¬ Mergeable first second := by
  unfold merge? Mergeable
  split <;> simp

theorem Rewrites.size_le {nodes others : List (Node Hole)}
    (rewrites : Rewrites erases nodes others) : sizeAll others ≤ sizeAll nodes := by
  rcases rewrites.shrinks with rfl | smaller
  · exact Nat.le_refl _
  · exact Nat.le_of_lt smaller

theorem Rewrites.eq_of_size_le {nodes others : List (Node Hole)}
    (rewrites : Rewrites erases nodes others) (large : sizeAll nodes ≤ sizeAll others) :
    others = nodes :=
  rewrites.shrinks.resolve_right (Nat.not_lt.mpr large)

/-! Sequences. -/

theorem Candidate.hold_cases (next : Candidate Hole) :
    next.hold = some next ∨ next.hold = none := by
  unfold hold
  split
  · exact Or.inr rfl
  · exact Or.inl rfl

theorem Candidate.Rewritten.form_eq {candidate : Candidate Hole}
    (rewritten : candidate.Rewritten erases)
    (large : candidate.node.size ≤ sizeAll candidate.form.toList) :
    candidate.form = some candidate.node := by
  have same := rewritten.eq_of_size_le (by simpa [sizeAll] using large)
  cases found : candidate.form with
  | none => simp [found] at same
  | some form => simpa [found] using same

/-- Nothing is done to the nodes: every form is the node itself, and no neighbours merge. -/
def LeftAlone (candidates : List (Candidate Hole)) : Prop :=
  (∀ one ∈ candidates, one.form = some one.node) ∧ NoneMerge (candidates.map Candidate.node)

theorem foldHeld_size_le {held : Option (Candidate Hole)} {rest : List (Candidate Hole)}
    (heldForm : ∀ one, held = some one → one.Rewritten erases)
    (restForms : ∀ one ∈ rest, one.Rewritten erases) :
    sizeAll (foldHeld held rest) ≤
      sizeAll (held.toList.map Candidate.node) + sizeAll (rest.map Candidate.node) := by
  rw [← sizeAll_append]
  exact (foldHeld_rewrites held rest heldForm restForms).size_le

theorem none_rewritten : ∀ one, (none : Option (Candidate Hole)) = some one →
    one.Rewritten erases := by
  simp

theorem foldHeld_hold_size_le {next : Candidate Hole} {rest : List (Candidate Hole)}
    (forms : ∀ one ∈ next :: rest, one.Rewritten erases) :
    sizeAll (foldHeld next.hold rest) ≤ next.node.size + sizeAll (rest.map Candidate.node) := by
  have within := foldHeld_size_le none_rewritten forms
  simpa [foldHeld, sizeAll] using within

theorem hold_of_size_le {next : Candidate Hole} {rest : List (Candidate Hole)}
    (restForms : ∀ one ∈ rest, one.Rewritten erases)
    (large : next.node.size + sizeAll (rest.map Candidate.node) ≤
      sizeAll (foldHeld next.hold rest)) : next.hold = some next := by
  rcases next.hold_cases with kept | lost
  · exact kept
  · have behind := foldHeld_size_le none_rewritten restForms
    have counts := size_pos next.node
    rw [lost] at large
    simp only [Option.toList_none, List.map_nil, sizeAll] at behind
    omega

theorem foldHeld_merged_lt {first second both : Node Hole}
    (found : merge? first second = some both) {rest : List (Candidate Hole)}
    (restForms : ∀ one ∈ rest, one.Rewritten erases) :
    sizeAll (foldHeld (holdMerged both) rest) <
      first.size + (second.size + sizeAll (rest.map Candidate.node)) := by
  have bothForm : ∀ one, holdMerged both = some one → one.Rewritten erases :=
    fun _ => holdMerged_rewritten
  have behind := foldHeld_size_le bothForm restForms
  have merging : Rewrites erases [both] _ := holdMerged_rewrites both
  have single := merging.size_le
  have alone := size_of_isInstruction (merge?_isInstruction found)
  have firstCounts := size_pos first
  have secondCounts := size_pos second
  simp only [sizeAll] at single
  omega

theorem foldHeld_leftAlone {held : Option (Candidate Hole)} {rest : List (Candidate Hole)}
    (heldForm : ∀ one, held = some one → one.Rewritten erases)
    (restForms : ∀ one ∈ rest, one.Rewritten erases)
    (large : sizeAll (held.toList.map Candidate.node) + sizeAll (rest.map Candidate.node) ≤
      sizeAll (foldHeld held rest)) : LeftAlone (held.toList ++ rest) := by
  induction rest generalizing held with
  | nil =>
      cases held with
      | none => simp [LeftAlone, NoneMerge]
      | some held =>
          have same := (heldForm held rfl).form_eq (by simpa [foldHeld, sizeAll] using large)
          simp [LeftAlone, NoneMerge, same]
  | cons next rest ih =>
      obtain ⟨nextForm, othersForms⟩ := List.forall_mem_cons.mp restForms
      have goesOn (enough : next.node.size + sizeAll (rest.map Candidate.node) ≤
          sizeAll (foldHeld next.hold rest)) : LeftAlone (next :: rest) := by
        have kept := hold_of_size_le othersForms enough
        rw [kept] at enough
        have nextHeld : ∀ one, some next = some one → one.Rewritten erases := by
          rintro one ⟨⟩
          exact nextForm
        exact ih nextHeld othersForms (by simpa [sizeAll] using enough)
      simp only [List.map_cons, sizeAll] at large
      cases held with
      | none => exact goesOn (by simpa [foldHeld, sizeAll] using large)
      | some held =>
          have nextCounts := size_pos next.node
          have behind := foldHeld_size_le heldForm othersForms
          simp only [Option.toList_some, List.map_cons, List.map_nil, sizeAll] at large behind
          unfold foldHeld at large
          split at large
          · omega
          · split at large
            · rename_i both found
              have fewer := foldHeld_merged_lt found othersForms
              omega
            · rename_i apart
              have after := foldHeld_hold_size_le restForms
              have alone := (heldForm held rfl).size_le
              rw [sizeAll_append] at large
              simp only [sizeAll] at alone
              have same := (heldForm held rfl).form_eq (by omega)
              have others := goesOn (by omega)
              refine ⟨List.forall_mem_cons.mpr ⟨same, others.1⟩, ?_⟩
              exact ⟨merge?_eq_none_iff.mp apart, others.2⟩

theorem noBlocks_of_spliced {nodes : List (Node Hole)}
    (large : sizeAll nodes ≤ sizeAll (nodes.flatMap spliced)) : ∀ node ∈ nodes, ¬ IsBlock node := by
  induction nodes with
  | nil => simp
  | cons node rest ih =>
      have flattened : Rewrites True rest _ := flatMap_spliced_rewrites rest
      have behind := flattened.size_le
      rw [List.flatMap_cons, sizeAll_append, sizeAll] at large
      cases node with
      | block children =>
          simp only [spliced, size] at large
          omega
      | _ =>
          simp only [spliced, sizeAll, size] at large
          refine List.forall_mem_cons.mpr ⟨by simp [IsBlock], ih (by omega)⟩

/-! Trees. -/

theorem ofSequence?_eq_block {nodes children : List (Node Hole)}
    (found : ofSequence? nodes = some (.block children)) :
    nodes = [.block children] ∨ nodes = children ∧ 2 ≤ children.length := by
  unfold ofSequence? at found
  split at found
  · cases found
  · cases found
    exact Or.inl rfl
  · rename_i empty single
    cases found
    refine Or.inr ⟨rfl, ?_⟩
    match nodes, empty, single with
    | [], empty, _ => exact absurd rfl empty
    | [node], _, single => exact absurd rfl (single node)
    | _ :: _ :: _, _, _ => simp

theorem ofBody?_cases (body : Node Hole) :
    (Irreplaceable body ∧ ofBody? (some body) = some (.loop body)) ∨
      ¬ Irreplaceable body ∧
        ∃ stand, ofBody? (some body) = some stand ∧ ∀ inner, stand ≠ .loop inner := by
  cases body with
  | add amount =>
      by_cases clearing : amount = 1 ∨ amount = cellSize - 1
      · refine Or.inr ⟨by simp only [Irreplaceable]; omega, .set 0, ?_, by simp⟩
        simp [ofBody?, clears, clearing]
      · refine Or.inl ⟨by simp only [Irreplaceable]; omega, ?_⟩
        simp [ofBody?, clears, clearing]
  | block children =>
      cases found : transfer? children with
      | none => exact Or.inl ⟨found, by simp [ofBody?, clears, found]⟩
      | some stand =>
          refine Or.inr ⟨by simp [Irreplaceable, found], stand, ?_, ?_⟩
          · simp [ofBody?, clears, found]
          · rcases transfer?_eq_some found with
              ⟨out, back, _, _, rfl⟩ | ⟨out, further, back, _, _, rfl⟩ <;> simp
  | _ => exact Or.inl ⟨trivial, rfl⟩

theorem ofBody?_eq_loop_iff {form : Option (Node Hole)} {body : Node Hole} :
    ofBody? form = some (.loop body) ↔ form = some body ∧ Irreplaceable body := by
  cases form with
  | none => simp [ofBody?]
  | some inner =>
      rcases ofBody?_cases inner with ⟨kept, same⟩ | ⟨replaced, stand, same, other⟩
      · rw [same]
        constructor
        · rintro ⟨⟩
          exact ⟨rfl, kept⟩
        · rintro ⟨⟨⟩, _⟩
          rfl
      · rw [same]
        constructor
        · rintro ⟨⟩
          exact absurd rfl (other body)
        · rintro ⟨⟨⟩, kept⟩
          exact absurd kept replaced

theorem settled_of_optimize {children : List (Node Hole)}
    (unchanged : optimize (.block children) = some (.block children)) :
    Settled children ∧ ∀ child ∈ children, optimize child = some child := by
  have rewritten : ∀ one ∈ candidates children, one.Rewritten True :=
    candidates_rewritten children (everywhereAll_of_forall (fun _ => Or.inl trivial) children)
  have nodes : (candidates children).map Candidate.node = children := by
    simp [candidates_eq_map, Function.comp_def]
  have folded := foldHeld_size_le none_rewritten rewritten
  have flattening : Rewrites True (foldHeld none (candidates children)) _ :=
    flatMap_spliced_rewrites _
  have flattened := flattening.size_le
  rw [nodes, Option.toList_none, List.map_nil, sizeAll, Nat.zero_add] at folded
  rw [optimize, combine] at unchanged
  rcases ofSequence?_eq_block unchanged with alone | ⟨same, several⟩
  · rw [alone] at flattened
    simp only [sizeAll, size] at flattened
    omega
  · rw [same] at flattened
    have untouched : LeftAlone (candidates children) :=
      foldHeld_leftAlone none_rewritten rewritten (by simpa [nodes, sizeAll] using flattened)
    have emitted : foldHeld none (candidates children) = children := by
      rw [← flattening.eq_of_size_le (by rwa [same])]
      exact same
    have noBlocks : ∀ child ∈ foldHeld none (candidates children), ¬ IsBlock child :=
      noBlocks_of_spliced (by rwa [same])
    rw [emitted] at noBlocks
    refine ⟨⟨several, noBlocks, by simpa [nodes] using untouched.2⟩, ?_⟩
    simpa [candidates_eq_map] using untouched.1

mutual

theorem isNormal_of_optimize (tree : Node Hole) (unchanged : optimize tree = some tree) :
    tree.IsNormal := by
  match tree with
  | .block children =>
      obtain ⟨settled, inside⟩ := settled_of_optimize unchanged
      exact ⟨settled, allNormal_of_optimize children inside⟩
  | .loop body =>
      rw [optimize, ofBody?_eq_loop_iff] at unchanged
      exact ⟨unchanged.2, isNormal_of_optimize body unchanged.1⟩
  | .move _ | .add _ =>
      unfold optimize at unchanged
      split at unchanged
      · cases unchanged
      · assumption
  | .set _ | .print | .read | .addTo _ => trivial
  | .hole _ => simp [optimize] at unchanged

theorem allNormal_of_optimize (nodes : List (Node Hole))
    (unchanged : ∀ node ∈ nodes, optimize node = some node) : AllNormal nodes := by
  match nodes with
  | [] => trivial
  | node :: rest =>
      obtain ⟨first, others⟩ := List.forall_mem_cons.mp unchanged
      exact ⟨isNormal_of_optimize node first, allNormal_of_optimize rest others⟩

end

end TapeTree.Node
