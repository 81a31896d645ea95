import TapeTree.Proofs.Optimize.Unchanged

/-! Normal forms are the trees that a pass leaves as they are. Nothing in them is idle, merges or
is flattened, so a fold emits their nodes one by one. -/

namespace TapeTree.Node

variable {Hole : Type}

theorem NoneMerge.tail {node : Node Hole} {rest : List (Node Hole)}
    (noneMerge : NoneMerge (node :: rest)) : NoneMerge rest := by
  cases rest with
  | nil => trivial
  | cons => exact noneMerge.2

theorem IsNormal.active {node : Node Hole} (normal : node.IsNormal) : ¬ node.isIdle := by
  cases node <;> simp_all [IsNormal, isIdle]

theorem spliced_of_noBlock {node : Node Hole} (noBlock : ¬ IsBlock node) :
    spliced node = [node] := by
  cases node with
  | block => exact absurd trivial noBlock
  | _ => rfl

theorem flatMap_spliced_of_noBlocks {nodes : List (Node Hole)}
    (noBlocks : ∀ node ∈ nodes, ¬ IsBlock node) : nodes.flatMap spliced = nodes := by
  induction nodes with
  | nil => rfl
  | cons node rest ih =>
      obtain ⟨first, others⟩ := List.forall_mem_cons.mp noBlocks
      rw [List.flatMap_cons, spliced_of_noBlock first, ih others]
      rfl

theorem ofSequence?_several {nodes : List (Node Hole)} (several : 2 ≤ nodes.length) :
    ofSequence? nodes = some (.block nodes) := by
  match nodes with
  | [] | [_] => simp at several
  | _ :: _ :: _ => rfl

/-! Sequences of nodes that stay. -/

def Candidate.kept (node : Node Hole) : Candidate Hole :=
  ⟨node, some node⟩

theorem Candidate.hold_kept {node : Node Hole} (normal : node.IsNormal) :
    (kept node).hold = some (kept node) := by
  cases node with
  | hole => exact normal.elim
  | _ => rfl

theorem foldHeld_apart {held next : Candidate Hole} (active : ¬ next.node.isIdle)
    (apart : merge? held.node next.node = none) (rest : List (Candidate Hole)) :
    foldHeld (some held) (next :: rest) = held.form.toList ++ foldHeld next.hold rest := by
  rw [foldHeld, if_neg active, apart]

theorem foldHeld_kept (front : List (Node Hole)) (last : Node Hole)
    (more : List (Candidate Hole)) (normal : AllNormal (front ++ [last]))
    (noneMerge : NoneMerge (front ++ [last])) :
    foldHeld none ((front ++ [last]).map .kept ++ more) =
      front ++ foldHeld (some (.kept last)) more := by
  induction front with
  | nil => exact congrArg (foldHeld · more) (Candidate.hold_kept normal.1)
  | cons node rest ih =>
      have behind := ih normal.2 noneMerge.tail
      obtain ⟨next, others, same⟩ : ∃ next others, rest ++ [last] = next :: others :=
        List.exists_cons_of_ne_nil (by simp)
      rw [List.cons_append, same] at normal noneMerge
      rw [same, List.map_cons, List.cons_append, foldHeld] at behind
      have active : ¬ (Candidate.kept next).node.isIdle := normal.2.1.active
      have apart : merge? (Candidate.kept node).node (Candidate.kept next).node = none :=
        merge?_eq_none_iff.mpr noneMerge.1
      rw [List.cons_append, same, List.map_cons, List.map_cons, List.cons_append, List.cons_append,
        foldHeld, Candidate.hold_kept normal.1, foldHeld_apart active apart, behind]
      rfl

theorem foldHeld_none_kept {nodes : List (Node Hole)} (normal : AllNormal nodes)
    (noneMerge : NoneMerge nodes) : foldHeld none (nodes.map .kept) = nodes := by
  rcases List.eq_nil_or_concat nodes with rfl | ⟨front, last, rfl⟩
  · rfl
  · rw [List.concat_eq_append] at normal noneMerge ⊢
    have emitted := foldHeld_kept front last [] normal noneMerge
    rwa [List.append_nil] at emitted

theorem combine_kept {nodes : List (Node Hole)} (normal : AllNormal nodes)
    (noBlocks : ∀ node ∈ nodes, ¬ IsBlock node) (noneMerge : NoneMerge nodes) :
    combine (nodes.map .kept) = nodes := by
  rw [combine, foldHeld_none_kept normal noneMerge]
  exact flatMap_spliced_of_noBlocks noBlocks

/-! Trees. -/

mutual

theorem optimize_of_isNormal (tree : Node Hole) (normal : tree.IsNormal) :
    optimize tree = some tree := by
  match tree with
  | .block children =>
      obtain ⟨⟨several, noBlocks, noneMerge⟩, inside⟩ := normal
      rw [optimize, candidates_of_allNormal children inside, combine_kept inside noBlocks noneMerge]
      exact ofSequence?_several several
  | .loop body =>
      rw [optimize, optimize_of_isNormal body normal.2]
      exact ofBody?_eq_loop_iff.mpr ⟨rfl, normal.1⟩
  | .move _ | .add _ =>
      rw [optimize]
      exact if_neg normal
  | .set _ | .print | .read | .addTo _ => rw [optimize]
  | .hole _ => exact normal.elim

theorem candidates_of_allNormal (nodes : List (Node Hole)) (normal : AllNormal nodes) :
    candidates nodes = nodes.map .kept := by
  match nodes with
  | [] => rw [candidates, List.map_nil]
  | node :: rest =>
      rw [candidates, optimize_of_isNormal node normal.1, candidates_of_allNormal rest normal.2]
      rfl

end

/-- A pass leaves a tree as it is if the tree is in normal form, and only then. -/
theorem optimize_eq_self_iff_isNormal (tree : Node Hole) :
    optimize tree = some tree ↔ tree.IsNormal := by
  constructor
  · intro unchanged
    exact isNormal_of_optimize tree unchanged
  · intro normal
    exact optimize_of_isNormal tree normal

end TapeTree.Node
