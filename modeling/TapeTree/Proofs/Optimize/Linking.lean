import TapeTree.Proofs.Optimize.NormalForms
import TapeTree.Proofs.Optimize.Residue
import TapeTree.Proofs.Tree.Joining

/-! Pieces of a program that passes settled each on its own. Put together and settled once more,
they come to the same tree as the whole program does. -/

namespace TapeTree

namespace Node

variable {Hole : Type}

/-! Trees in normal form are their own residues. -/

theorem putBefore_of_noneMerge {node : Node Hole} {rest : List (Node Hole)}
    (active : ¬ node.isIdle) (noneMerge : NoneMerge (node :: rest)) :
    putBefore node rest = node :: rest := by
  cases rest with
  | nil => exact putBefore_nil active
  | cons next rest => exact putBefore_cons_apart (merge?_eq_none_iff.mpr noneMerge.1) active rest

theorem ofSequence?_spliced {node : Node Hole} (normal : node.IsNormal) :
    ofSequence? (spliced node) = some node := by
  cases node with
  | block children => exact ofSequence?_several normal.1.1
  | _ => rfl

mutual

theorem residue_of_isNormal (node : Node Hole) (normal : node.IsNormal) :
    residue node = spliced node := by
  match node with
  | .block children =>
      rw [residue]
      exact residueAll_of_allNormal children normal.2 normal.1.2.1 normal.1.2.2
  | .loop body =>
      have kept := ofBody?_eq_loop_iff.mpr ⟨rfl, normal.1⟩
      rw [residue, residue_of_isNormal body normal.2, loopResidue, ofSequence?_spliced normal.2,
        kept]
      rfl
  | .move _ | .add _ =>
      rw [residue]
      exact putBefore_nil normal.active
  | .set _ | .print | .read | .addTo _ =>
      rw [residue]
      rfl
  | .hole _ => exact normal.elim

theorem residueAll_of_allNormal (nodes : List (Node Hole)) (normal : AllNormal nodes)
    (noBlocks : ∀ node ∈ nodes, ¬ IsBlock node) (noneMerge : NoneMerge nodes) :
    residueAll nodes = nodes := by
  match nodes with
  | [] => rw [residueAll]
  | node :: rest =>
      obtain ⟨noBlock, others⟩ := List.forall_mem_cons.mp noBlocks
      rw [residueAll, residue_of_isNormal node normal.1, spliced_of_noBlock noBlock,
        residueAll_of_allNormal rest normal.2 others noneMerge.tail]
      exact putBefore_of_noneMerge normal.1.active noneMerge

end

/-! Where passes lead. -/

def SettlesTo (tree limit : Node Hole) : Prop :=
  ∃ enough, ∀ count, enough ≤ count → afterPasses count tree = limit

theorem settlesTo_of_stable {tree : Node Hole} {count : Nat}
    (stable : (afterPasses count tree).Stable) : tree.SettlesTo (afterPasses count tree) :=
  ⟨count, fun _ enough => afterPasses_of_stable stable enough⟩

theorem SettlesTo.unique {tree limit other : Node Hole} (settles : tree.SettlesTo limit)
    (again : tree.SettlesTo other) : limit = other := by
  obtain ⟨enough, reached⟩ := settles
  obtain ⟨alsoEnough, alsoReached⟩ := again
  rw [← reached (max enough alsoEnough) (Nat.le_max_left _ _)]
  exact alsoReached _ (Nat.le_max_right _ _)

theorem SettlesTo.stable {tree limit : Node Hole} (settles : tree.SettlesTo limit) :
    limit.Stable := by
  obtain ⟨enough, reached⟩ := settles
  have further := afterPasses_add enough 1 tree
  rw [reached enough (Nat.le_refl _), reached (enough + 1) (Nat.le_succ _)] at further
  exact further

theorem runPasses_stable [DecidableEq Hole] {tree : Node Hole}
    (early : (tree.runPasses none).count < passLimit) : (tree.runPasses none).tree.Stable := by
  obtain ⟨needed, _, settles⟩ := exists_settlesAfter tree
  rw [runPasses_settling, settles.passLoop_eq] at early ⊢
  exact (settles _).mpr (by simp only at early; omega)

theorem SettlesTo.runPasses_eq [DecidableEq Hole] {tree limit : Node Hole}
    (settles : tree.SettlesTo limit) (stable : (tree.runPasses none).tree.Stable) :
    (tree.runPasses none).tree = limit := by
  obtain ⟨count, reached⟩ := runPasses_tree tree none
  rw [reached] at stable ⊢
  exact (settlesTo_of_stable stable).unique settles

def normalForm (tree : Node Hole) : Node Hole :=
  (ofSequence? (residue tree)).getD (.block [])

theorem Stable.normalForm_eq {tree : Node Hole} (stable : tree.Stable) :
    normalForm tree = tree := by
  rw [Stable, pass] at stable
  cases found : optimize tree with
  | none =>
      rw [found, Option.getD_none] at stable
      rw [← stable, normalForm, residue, residueAll]
      rfl
  | some form =>
      rw [found, Option.getD_some] at stable
      rw [stable] at found
      have normal := isNormal_of_optimize tree found
      rw [normalForm, residue_of_isNormal tree normal, ofSequence?_spliced normal]
      rfl

theorem pass_residue {tree : Node Hole} (fits : tree.Everywhere FitsCell) :
    residue (pass tree) = residue tree := by
  have fitsAll : EverywhereAll FitsCell [tree] := ⟨fits, trivial⟩
  rcases pass_rewrites tree with ⟨rewrites, nothing⟩ | rewrites
  · have same := rewrites.residueAll_eq fitsAll
    rw [residueAll_singleton fits] at same
    rw [same, nothing, residue]
  · have same := rewrites.residueAll_eq fitsAll
    have fitsPass := pass_everywhere fitsCell_maintained fits
    rw [residueAll_singleton fits, residueAll_singleton fitsPass] at same
    exact same.symm

theorem afterPasses_residue (count : Nat) {tree : Node Hole} (fits : tree.Everywhere FitsCell) :
    residue (afterPasses count tree) = residue tree := by
  induction count generalizing tree with
  | zero => rfl
  | succ count ih =>
      rw [afterPasses, ih (pass_everywhere fitsCell_maintained fits), pass_residue fits]

theorem settlesTo_normalForm {tree : Node Hole} (fits : tree.Everywhere FitsCell) :
    tree.SettlesTo (normalForm tree) := by
  obtain ⟨needed, _, settles⟩ := exists_settlesAfter tree
  have stable := (settles needed).mpr (Nat.le_refl needed)
  have same := stable.normalForm_eq
  rw [normalForm, afterPasses_residue needed fits, ← normalForm] at same
  rw [same]
  exact settlesTo_of_stable stable

theorem normalForm_everywhere {tree : Node Hole} (fits : tree.Everywhere FitsCell) :
    (normalForm tree).Everywhere FitsCell ∧ residue (normalForm tree) = residue tree := by
  obtain ⟨enough, reached⟩ := settlesTo_normalForm fits
  rw [← reached enough (Nat.le_refl enough)]
  exact ⟨afterPasses_everywhere fitsCell_maintained enough fits, afterPasses_residue enough fits⟩

theorem normalForm_linked {nodes others : List (Node Hole)} (fits : EverywhereAll FitsCell nodes)
    (fitsOthers : EverywhereAll FitsCell others) :
    normalForm (.block [normalForm (.block nodes), normalForm (.block others)]) =
      normalForm (.block (nodes ++ others)) := by
  have fitsFront : (.block nodes : Node Hole).Everywhere FitsCell := ⟨trivial, fits⟩
  have fitsBack : (.block others : Node Hole).Everywhere FitsCell := ⟨trivial, fitsOthers⟩
  obtain ⟨_, left⟩ := normalForm_everywhere fitsFront
  obtain ⟨fitsRight, right⟩ := normalForm_everywhere fitsBack
  have same : residue (.block [normalForm (.block nodes), normalForm (.block others)]) =
      residue (.block (nodes ++ others)) := by
    rw [residue, residueAll, left, residueAll_singleton fitsRight, right, residue, residue,
      residue, residueAll_append fits fitsOthers]
  rw [normalForm, same, ← normalForm]

/-- The pieces settle, and the block of what they settle to comes to the same as the whole. -/
def SettlesInPieces (whole first second : Node Hole) : Prop :=
  ∃ left right limit, first.SettlesTo left ∧ second.SettlesTo right ∧
    (.block [left, right] : Node Hole).SettlesTo limit ∧ whole.SettlesTo limit

theorem settlesInPieces_append {nodes others : List (Node Hole)}
    (fits : EverywhereAll FitsCell nodes) (fitsOthers : EverywhereAll FitsCell others) :
    SettlesInPieces (.block (nodes ++ others)) (.block nodes) (.block others) := by
  have fitsFront : (.block nodes : Node Hole).Everywhere FitsCell := ⟨trivial, fits⟩
  have fitsBack : (.block others : Node Hole).Everywhere FitsCell := ⟨trivial, fitsOthers⟩
  have fitsWhole : EverywhereAll FitsCell (nodes ++ others) :=
    (everywhereAll_append FitsCell nodes others).mpr ⟨fits, fitsOthers⟩
  have left := normalForm_everywhere fitsFront
  have right := normalForm_everywhere fitsBack
  refine ⟨_, _, _, settlesTo_normalForm fitsFront, settlesTo_normalForm fitsBack,
    settlesTo_normalForm ⟨trivial, left.1, right.1, trivial⟩, ?_⟩
  rw [normalForm_linked fits fitsOthers]
  exact settlesTo_normalForm ⟨trivial, fitsWhole⟩

end Node

namespace Tree

open Node Command

/-- Optimizing pieces apart does not change what optimizing leads to: for sequences of nodes whose
numbers are bytes, and for texts of which the first closes all loops that it opens. What passes
lead to is what the limited number of them gives, unless the limit cuts it short. -/
theorem pieces_settle_as_whole :
    (∀ nodes others : List Tree, EverywhereAll FitsCell nodes → EverywhereAll FitsCell others →
      SettlesInPieces (.block (nodes ++ others)) (.block nodes) (.block others)) ∧
    (∀ strict first second tree other, IsBalanced (ofSource first) →
      parse strict first = .ok tree → parse strict second = .ok other →
      ∃ whole, parse strict (first ++ second) = .ok whole ∧ SettlesInPieces whole tree other) ∧
    ∀ tree limit : Tree, tree.SettlesTo limit →
      ((tree.runPasses none).count < passLimit → (tree.runPasses none).tree = limit) ∧
      ((tree.runPasses none).tree = limit ↔ (tree.runPasses none).tree.Stable) := by
  refine ⟨fun _ _ => settlesInPieces_append, ?_, ?_⟩
  · intro strict first second tree other balanced parsed parsedOther
    have fits := fitsCell_fromCommands.parse_everywhere parsed
    have fitsOther := fitsCell_fromCommands.parse_everywhere parsedOther
    obtain ⟨children, others, rfl, rfl, accepted⟩ := parse_append balanced parsed parsedOther
    exact ⟨_, accepted, settlesInPieces_append fits.2 fitsOther.2⟩
  · intro tree limit settles
    refine ⟨fun early => settles.runPasses_eq (runPasses_stable early), ?_⟩
    constructor
    · intro same
      rw [same]
      exact settles.stable
    · exact settles.runPasses_eq

theorem clearing_and_counting_settle :
    (∃ whole left right, parse true ("+>[-]" ++ "+++.[->+<]") = .ok whole ∧
      (.block [left, right] : Tree).SettlesTo
        (.block [.add 1, .move 1, .set 3, .print, .addTo 1, .set 0]) ∧
      whole.SettlesTo (.block [.add 1, .move 1, .set 3, .print, .addTo 1, .set 0])) ∧
    ∃ left right, (.block [.set 1, .add 200] : Tree).SettlesTo left ∧
      (.block [.add 55, .add 1] : Tree).SettlesTo right ∧
      (.block [left, right] : Tree).SettlesTo (.set 1) := by
  obtain ⟨sequences, texts, limited⟩ := pieces_settle_as_whole
  constructor
  · have commands : ofSource "+>[-]" =
        [.increment, .right, .openLoop, .decrement, .closeLoop] := by decide
    have balanced : IsBalanced (ofSource "+>[-]") := by
      rw [commands, IsBalanced, ClosesOpened]
      simp [forall_start_cons, depth]
    obtain ⟨whole, accepted, left, right, limit, _, _, linked, settles⟩ :=
      texts true "+>[-]" "+++.[->+<]" _ _ balanced rfl rfl
    have parsed : parse true ("+>[-]" ++ "+++.[->+<]") = .ok (.block [.add 1, .move 1,
        .loop (.block [.add 255]), .add 1, .add 1, .add 1, .print,
        .loop (.block [.add 255, .move 1, .add 1, .move (-1)])]) := rfl
    rw [parsed] at accepted
    cases accepted
    have reached := (limited _ limit settles).1 (by decide)
    have same : limit = .block [.add 1, .move 1, .set 3, .print, .addTo 1, .set 0] := by
      rw [← reached]
      decide
    rw [same] at linked settles
    exact ⟨_, left, right, parsed, linked, settles⟩
  · have fits : EverywhereAll FitsCell ([.set 1, .add 200] : List Tree) := by
      simp [EverywhereAll, Everywhere, FitsCell, cellSize]
    have fitsOthers : EverywhereAll FitsCell ([.add 55, .add 1] : List Tree) := by
      simp [EverywhereAll, Everywhere, FitsCell, cellSize]
    obtain ⟨left, right, limit, first, second, linked, settles⟩ := sequences _ _ fits fitsOthers
    have reached := (limited _ limit settles).1 (by decide)
    refine ⟨left, right, first, second, ?_⟩
    rw [← reached] at linked
    exact linked

end Tree

end TapeTree
