import Mathlib.Data.List.Chain
import TapeTree.Proofs.Optimize.Iterating
import TapeTree.Proofs.Optimize.NormalForms
import TapeTree.Proofs.Tree.Joining

/-! Pairs of nodes that cancel, one inside the other. A pass cancels the innermost pair and leaves
the slot of the fold empty, so the pair around it is left to the next pass. -/

namespace TapeTree

namespace Node

variable {Hole : Type}

theorem noneMerge_iff_isChain (nodes : List (Node Hole)) :
    NoneMerge nodes ↔ nodes.IsChain fun first second => ¬ Mergeable first second := by
  induction nodes with
  | nil => simp [NoneMerge]
  | cons node rest ih =>
      cases rest with
      | nil => simp [NoneMerge]
      | cons next others => rw [NoneMerge, List.isChain_cons_cons, ih]

theorem allNormal_iff (nodes : List (Node Hole)) :
    AllNormal nodes ↔ ∀ node ∈ nodes, node.IsNormal := by
  induction nodes with
  | nil => simp [AllNormal]
  | cons node rest ih => rw [AllNormal, ih, List.forall_mem_cons]

def nest (pairs : List (Node Hole × Node Hole)) : List (Node Hole) :=
  pairs.map Prod.fst ++ (pairs.map Prod.snd).reverse

/-- Each pair cancels where it is innermost. On either side of it nothing merges. -/
structure CancelsInside (pairs : List (Node Hole × Node Hole)) : Prop where
  normal : ∀ pair ∈ pairs, pair.1.IsNormal ∧ pair.2.IsNormal
  cancels : ∀ pair ∈ pairs, ∃ both, merge? pair.1 pair.2 = some both ∧ both.isIdle
  front : NoneMerge (pairs.map Prod.fst)
  back : NoneMerge (pairs.map Prod.snd).reverse

theorem length_nest (pairs : List (Node Hole × Node Hole)) :
    (nest pairs).length = 2 * pairs.length := by
  simp only [nest, List.length_append, List.length_reverse, List.length_map]
  omega

theorem nest_concat (outer : List (Node Hole × Node Hole)) (inner : Node Hole × Node Hole) :
    nest (outer ++ [inner]) =
      (outer.map Prod.fst ++ [inner.1]) ++ inner.2 :: (outer.map Prod.snd).reverse := by
  simp [nest]

theorem nest_take (pairs : List (Node Hole × Node Hole)) (count : Nat) :
    nest (pairs.take (pairs.length - count)) =
      (nest pairs).take (pairs.length - count) ++ (nest pairs).drop (pairs.length + count) := by
  have front : pairs.length - count ≤ (pairs.map Prod.fst).length := by simp
  have back : pairs.length + count = (pairs.map Prod.fst).length + count := by simp
  simp only [nest, List.map_take, List.take_append_of_le_length front, back,
    List.drop_length_add_append, List.drop_reverse, List.length_map]

theorem isBlock_of_merge? {first second both : Node Hole}
    (merged : merge? first second = some both) : ¬ IsBlock first ∧ ¬ IsBlock second := by
  rcases merge?_eq_some merged with
    ⟨_, _, rfl, rfl, _⟩ | ⟨_, _, rfl, rfl, _⟩ | ⟨_, _, rfl, rfl, _⟩ | ⟨_, _, rfl, rfl, _⟩ <;>
  exact ⟨id, id⟩

namespace CancelsInside

variable {pairs outer : List (Node Hole × Node Hole)} {inner : Node Hole × Node Hole}

theorem of_concat (cancels : CancelsInside (outer ++ [inner])) : CancelsInside outer where
  normal := fun pair member => cancels.normal pair (by simp [member])
  cancels := fun pair member => cancels.cancels pair (by simp [member])
  front := by
    have whole := cancels.front
    rw [noneMerge_iff_isChain, List.map_append] at whole
    exact (noneMerge_iff_isChain _).mpr whole.left_of_append
  back := by
    have whole := cancels.back
    rw [List.map_append, List.reverse_append] at whole
    exact NoneMerge.tail whole

theorem of_mem_nest (cancels : CancelsInside pairs) {node : Node Hole} (member : node ∈ nest pairs) :
    node.IsNormal ∧ ¬ IsBlock node := by
  rw [nest, List.mem_append, List.mem_reverse, List.mem_map, List.mem_map] at member
  rcases member with ⟨pair, member, rfl⟩ | ⟨pair, member, rfl⟩
  · obtain ⟨_, merged, _⟩ := cancels.cancels pair member
    exact ⟨(cancels.normal pair member).1, (isBlock_of_merge? merged).1⟩
  · obtain ⟨_, merged, _⟩ := cancels.cancels pair member
    exact ⟨(cancels.normal pair member).2, (isBlock_of_merge? merged).2⟩

theorem allNormal_nest (cancels : CancelsInside pairs) : AllNormal (nest pairs) :=
  (allNormal_iff _).mpr fun _ member => (cancels.of_mem_nest member).1

theorem foldHeld_nest (cancels : CancelsInside (outer ++ [inner])) :
    foldHeld none ((nest (outer ++ [inner])).map .kept) = nest outer := by
  have normal := cancels.allNormal_nest
  have front := cancels.front
  have back := cancels.of_concat.back
  obtain ⟨both, merged, idle⟩ := cancels.cancels inner (by simp)
  rw [nest_concat, allNormal_iff, List.forall_mem_append, List.forall_mem_cons,
    ← allNormal_iff, ← allNormal_iff] at normal
  obtain ⟨normalFront, normalInner, normalBack⟩ := normal
  rw [List.map_append] at front
  have active : ¬ (Candidate.kept inner.2).node.isIdle := normalInner.active
  have cancelled : foldHeld (some (.kept inner.1))
      (.kept inner.2 :: (outer.map Prod.snd).reverse.map .kept) =
        (outer.map Prod.snd).reverse := by
    have found : merge? (Candidate.kept inner.1).node (Candidate.kept inner.2).node = some both :=
      merged
    rw [foldHeld, if_neg active, found]
    simp only [holdMerged, idle, if_true]
    exact foldHeld_none_kept normalBack back
  rw [nest_concat, List.map_append, foldHeld_kept _ _ _ normalFront front, List.map_cons,
    cancelled, nest]

theorem pass_nest (cancels : CancelsInside (outer ++ [inner])) :
    pass (.block (nest (outer ++ [inner]))) = .block (nest outer) := by
  have normal := cancels.allNormal_nest
  have noBlocks : ∀ node ∈ nest outer, ¬ IsBlock node :=
    fun _ member => (cancels.of_concat.of_mem_nest member).2
  have combined : optimize (.block (nest (outer ++ [inner]))) = ofSequence? (nest outer) := by
    rw [optimize, candidates_of_allNormal _ normal, combine, cancels.foldHeld_nest,
      flatMap_spliced_of_noBlocks noBlocks]
  rw [pass, combined]
  cases outer with
  | nil => rfl
  | cons pair rest =>
      rw [ofSequence?_several (by rw [length_nest, List.length_cons]; omega)]
      rfl

theorem iterate_pass_nest (cancels : CancelsInside pairs) (count : Nat) :
    pass^[count] (.block (nest pairs)) = .block (nest (pairs.take (pairs.length - count))) := by
  induction count generalizing pairs with
  | zero => rw [Function.iterate_zero_apply, Nat.sub_zero, List.take_length]
  | succ count ih =>
      rw [Function.iterate_succ_apply]
      rcases List.eq_nil_or_concat pairs with rfl | ⟨outer, inner, rfl⟩
      · have nothing : pass (.block (nest [])) = (.block (nest []) : Node Hole) := rfl
        rw [nothing, ih cancels, List.take_nil, List.take_nil]
      · rw [List.concat_eq_append] at cancels ⊢
        have shorter : (outer ++ [inner]).length - (count + 1) = outer.length - count := by simp
        rw [cancels.pass_nest, ih cancels.of_concat, shorter,
          List.take_append_of_le_length (Nat.sub_le _ _)]

theorem settlesAfter_nest (cancels : CancelsInside pairs) :
    (.block (nest pairs) : Node Hole).SettlesAfter pairs.length := by
  intro count
  rw [afterPasses_eq_iterate, iterate_stable_iff, cancels.iterate_pass_nest,
    cancels.iterate_pass_nest]
  constructor
  · intro same
    have lengths := congrArg List.length (Node.block.inj same)
    rw [length_nest, length_nest, List.length_take, List.length_take] at lengths
    omega
  · intro enough
    rw [Nat.sub_eq_zero_of_le enough, Nat.sub_eq_zero_of_le (Nat.le_succ_of_le enough)]

end CancelsInside

theorem noneMerge_replicate {nodes : List (Node Hole)} (filled : nodes ≠ [])
    (twice : NoneMerge (nodes ++ nodes)) (count : Nat) :
    NoneMerge (List.replicate count nodes).flatten := by
  rw [noneMerge_iff_isChain, List.isChain_append] at twice
  obtain ⟨inside, _, between⟩ := twice
  rw [noneMerge_iff_isChain, List.isChain_flatten]
  · refine ⟨fun part member => ?_, List.isChain_replicate_of_rel count between⟩
    rw [List.eq_of_mem_replicate member]
    exact inside
  · intro member
    exact filled (List.eq_of_mem_replicate member).symm

end Node

namespace Tree

open Node

def thereAndBack (count : Nat) : String :=
  String.join (List.replicate count "+>" ++ List.replicate count "<-")

def undonePairs (count : Nat) : List (Tree × Tree) :=
  (List.replicate count [(.add 1, .add 255), (.move 1, .move (-1))]).flatten

theorem length_undonePairs (count : Nat) : (undonePairs count).length = 2 * count := by
  simp [undonePairs, Nat.mul_comm]

theorem undonePairs_front (count : Nat) :
    (undonePairs count).map Prod.fst = (List.replicate count [.add 1, .move 1]).flatten := by
  simp [undonePairs, List.map_flatten]

theorem undonePairs_back (count : Nat) :
    ((undonePairs count).map Prod.snd).reverse =
      (List.replicate count [.move (-1), .add 255]).flatten := by
  simp [undonePairs, List.map_flatten, List.reverse_flatten]

theorem undonePairs_cancelsInside (count : Nat) : CancelsInside (undonePairs count) where
  normal := by
    intro pair member
    obtain ⟨pairs, replicated, member⟩ := List.mem_flatten.mp member
    rw [List.eq_of_mem_replicate replicated] at member
    simp only [List.mem_cons, List.not_mem_nil, or_false] at member
    rcases member with rfl | rfl <;> simp [IsNormal]
  cancels := by
    intro pair member
    obtain ⟨pairs, replicated, member⟩ := List.mem_flatten.mp member
    rw [List.eq_of_mem_replicate replicated] at member
    simp only [List.mem_cons, List.not_mem_nil, or_false] at member
    rcases member with rfl | rfl
    · exact ⟨.add 0, rfl, rfl⟩
    · exact ⟨.move 0, rfl, rfl⟩
  front := by
    rw [undonePairs_front]
    exact noneMerge_replicate (by simp) (by simp [NoneMerge, Mergeable]) count
  back := by
    rw [undonePairs_back]
    exact noneMerge_replicate (by simp) (by simp [NoneMerge, Mergeable]) count

theorem parse_thereAndBack (strict : Bool) (count : Nat) :
    parse strict (thereAndBack count) = .ok (.block (nest (undonePairs count))) := by
  have parsed : ∀ piece ∈ List.replicate count ("+>", [.add 1, .move 1]) ++
      List.replicate count ("<-", [.move (-1), .add 255]), ∀ strict,
        parse strict piece.1 = .ok (.block piece.2) := by
    intro piece member strict
    rcases List.mem_append.mp member with out | back
    · rw [List.eq_of_mem_replicate out]
      cases strict <;> rfl
    · rw [List.eq_of_mem_replicate back]
      cases strict <;> rfl
  have whole := parse_join parsed strict
  rw [List.map_append, List.map_replicate, List.map_replicate, List.flatMap_append, List.flatMap,
    List.flatMap, List.map_replicate, List.map_replicate] at whole
  rw [thereAndBack, whole, nest, undonePairs_front, undonePairs_back]

/-- Each pass cancels one pair, the innermost that is left. So the passes that are needed grow with
the text, although it has no loops, and the limit on them is reached before all is cancelled. -/
theorem one_pair_per_pass (count : Nat) :
    ∃ children, (∀ strict, parse strict (thereAndBack count) = .ok (.block children)) ∧
      (∀ passes : Nat,
        ((.block children : Tree).runPasses (some passes)).tree =
          .block (children.take (2 * count - passes) ++ children.drop (2 * count + passes)) ∧
        (children.take (2 * count - passes) ++ children.drop (2 * count + passes)).length =
          4 * count - 2 * passes) ∧
      (∀ passes : Nat, ((.block children : Tree).runPasses (some passes)).tree = .block [] ↔
        2 * count ≤ passes) ∧
      (.block children : Tree).SettlesAfter (2 * count) ∧
      (((.block children : Tree).runPasses none).tree = .block [] ↔ count ≤ 8) := by
  have cancels := undonePairs_cancelsInside count
  have pairs := length_undonePairs count
  have left (passes : Nat) : (nest ((undonePairs count).take (2 * count - passes))).length =
      4 * count - 2 * passes := by
    rw [length_nest, List.length_take, pairs]
    omega
  have reached (passes : Nat) : pass^[passes] (.block (nest (undonePairs count))) =
      .block (nest ((undonePairs count).take (2 * count - passes))) := by
    rw [cancels.iterate_pass_nest, pairs]
  have empties (passes : Nat) : pass^[passes] (.block (nest (undonePairs count))) = .block [] ↔
      2 * count ≤ passes := by
    rw [reached, Node.block.injEq, ← List.length_eq_zero_iff, left]
    omega
  have settles := cancels.settlesAfter_nest
  rw [pairs] at settles
  refine ⟨nest (undonePairs count), fun strict => parse_thereAndBack strict count, fun passes => ?_,
    fun passes => ?_, settles, ?_⟩
  · have taken := nest_take (undonePairs count) passes
    rw [pairs] at taken
    rw [runPasses_some, reached, ← taken]
    exact ⟨rfl, left passes⟩
  · rw [runPasses_some]
    exact empties passes
  · rw [runPasses_none_tree, afterPasses_eq_iterate, empties, passLimit]
    omega

end Tree

end TapeTree
