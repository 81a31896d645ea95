import TapeTree.Proofs.Optimize.Rewriting

/-! What is left of a sequence when all rewritings in it are made. It can be computed from the back
to the front, and no rewriting changes it, so the order in which they are made does not matter. -/

namespace TapeTree.Node

variable {Hole : Type} {erases : Prop}

def FitsCell : Node Hole → Prop
  | .add amount => 0 ≤ amount ∧ amount < cellSize
  | .set value => 0 ≤ value ∧ value < cellSize
  | _ => True

theorem fitsCell_maintained : Maintained (FitsCell : Node Hole → Prop) where
  merged := by
    intro first second merged found fitsFirst fitsSecond
    rcases merge?_eq_some found with
      ⟨_, _, _, _, rfl⟩ | ⟨_, _, _, _, rfl⟩ | ⟨_, _, _, _, rfl⟩ | ⟨_, _, _, rfl, rfl⟩
    · exact inside_cell _
    · trivial
    · exact inside_cell _
    · exact fitsSecond
  block := fun _ => trivial
  loop := fun _ => trivial
  addTo := fun _ => trivial
  cleared := by simp [FitsCell, cellSize]

/-! Merging is associative, and idle nodes are neutral for it. -/

theorem merge?_idle_first {first second merged : Node Hole}
    (found : merge? first second = some merged) (idle : first.isIdle) (fits : second.FitsCell) :
    merged = second := by
  rcases merge?_eq_some found with
    ⟨a, b, rfl, rfl, rfl⟩ | ⟨a, b, rfl, rfl, rfl⟩ | ⟨a, b, rfl, rfl, rfl⟩ | ⟨a, b, rfl, rfl, rfl⟩
  · obtain rfl : a = 0 := by simpa [isIdle] using idle
    rw [Int.zero_add, Int.emod_eq_of_lt fits.1 fits.2]
  · obtain rfl : a = 0 := by simpa [isIdle] using idle
    rw [Int.zero_add]
  · simp [isIdle] at idle
  · simp [isIdle] at idle

theorem merge?_idle_second {first second merged : Node Hole}
    (found : merge? first second = some merged) (idle : second.isIdle) (fits : first.FitsCell) :
    merged = first := by
  rcases merge?_eq_some found with
    ⟨a, b, rfl, rfl, rfl⟩ | ⟨a, b, rfl, rfl, rfl⟩ | ⟨a, b, rfl, rfl, rfl⟩ | ⟨a, b, rfl, rfl, rfl⟩
  · obtain rfl : b = 0 := by simpa [isIdle] using idle
    rw [Int.add_zero, Int.emod_eq_of_lt fits.1 fits.2]
  · obtain rfl : b = 0 := by simpa [isIdle] using idle
    rw [Int.add_zero]
  · obtain rfl : b = 0 := by simpa [isIdle] using idle
    rw [Int.add_zero, Int.emod_eq_of_lt fits.1 fits.2]
  · simp [isIdle] at idle

theorem merge?_assoc {first second third front back : Node Hole}
    (left : merge? first second = some front) (right : merge? second third = some back) :
    ∃ whole, merge? first back = some whole ∧ merge? front third = some whole := by
  rcases merge?_eq_some left with
    ⟨a, b, rfl, rfl, rfl⟩ | ⟨a, b, rfl, rfl, rfl⟩ | ⟨a, b, rfl, rfl, rfl⟩ |
    ⟨a, b, rfl, rfl, rfl⟩ <;>
  rcases merge?_eq_some right with
    ⟨_, c, same, rfl, rfl⟩ | ⟨_, c, same, rfl, rfl⟩ | ⟨_, c, same, rfl, rfl⟩ |
    ⟨_, c, same, rfl, rfl⟩ <;>
  cases same
  · exact ⟨.add (((a + b) % cellSize + c) % cellSize), by simp [merge?, Int.add_assoc], rfl⟩
  · exact ⟨.move (a + b + c), by simp [merge?, Int.add_assoc], rfl⟩
  · exact ⟨.set (((a + b) % cellSize + c) % cellSize), by simp [merge?, Int.add_assoc], rfl⟩
  · exact ⟨.set ((b + c) % cellSize), rfl, rfl⟩
  · exact ⟨.set c, rfl, rfl⟩

/-! Sequences in which nothing merges. -/

/-- Puts a node before others and merges it with the first of them as long as that works. -/
def putBefore (node : Node Hole) : List (Node Hole) → List (Node Hole)
  | [] => if node.isIdle then [] else [node]
  | next :: rest =>
      if node.isIdle then next :: rest
      else
        match merge? node next with
        | some merged => putBefore merged rest
        | none => node :: next :: rest

def putAllBefore (nodes others : List (Node Hole)) : List (Node Hole) :=
  nodes.foldr putBefore others

def Compact : List (Node Hole) → Prop
  | [] => True
  | node :: rest => node.FitsCell ∧ putBefore node rest = node :: rest ∧ Compact rest

theorem putBefore_idle {node : Node Hole} (idle : node.isIdle) (nodes : List (Node Hole)) :
    putBefore node nodes = nodes := by
  cases nodes <;> simp [putBefore, idle]

theorem putBefore_nil {node : Node Hole} (active : ¬ node.isIdle) :
    putBefore node [] = [node] := by
  simp [putBefore, active]

theorem putBefore_cons_merged {node next merged : Node Hole} (active : ¬ node.isIdle)
    (found : merge? node next = some merged) (rest : List (Node Hole)) :
    putBefore node (next :: rest) = putBefore merged rest := by
  simp [putBefore, active, found]

theorem putBefore_cons_apart {node next : Node Hole} (apart : merge? node next = none)
    (active : ¬ node.isIdle) (rest : List (Node Hole)) :
    putBefore node (next :: rest) = node :: next :: rest := by
  simp [putBefore, active, apart]

theorem putBefore_putBefore {first second merged : Node Hole} {nodes : List (Node Hole)}
    (found : merge? first second = some merged) (fitsFirst : first.FitsCell)
    (fitsSecond : second.FitsCell) (compact : Compact nodes) :
    putBefore first (putBefore second nodes) = putBefore merged nodes := by
  induction nodes generalizing second merged with
  | nil =>
      by_cases idle : second.isIdle
      · rw [putBefore_idle idle, merge?_idle_second found idle fitsFirst]
      · rw [putBefore_nil idle]
        by_cases still : first.isIdle
        · rw [putBefore_idle still, merge?_idle_first found still fitsSecond, putBefore_nil idle]
        · exact putBefore_cons_merged still found []
  | cons next rest ih =>
      obtain ⟨fitsNext, stays, compactRest⟩ := compact
      by_cases idle : second.isIdle
      · rw [putBefore_idle idle, merge?_idle_second found idle fitsFirst]
      · cases right : merge? second next with
        | none =>
            rw [putBefore_cons_apart right idle]
            by_cases still : first.isIdle
            · rw [putBefore_idle still, merge?_idle_first found still fitsSecond,
                putBefore_cons_apart right idle]
            · exact putBefore_cons_merged still found _
        | some back =>
            obtain ⟨whole, behind, before⟩ := merge?_assoc found right
            have fitsBack := fitsCell_maintained.merged right fitsSecond fitsNext
            rw [putBefore_cons_merged idle right, ih behind fitsBack compactRest]
            by_cases cancelled : merged.isIdle
            · rw [putBefore_idle cancelled, merge?_idle_first before cancelled fitsNext, stays]
            · rw [putBefore_cons_merged cancelled before]

theorem putBefore_compact {node : Node Hole} {nodes : List (Node Hole)} (fits : node.FitsCell)
    (compact : Compact nodes) : Compact (putBefore node nodes) := by
  induction nodes generalizing node with
  | nil =>
      by_cases idle : node.isIdle
      · rw [putBefore_idle idle]
        trivial
      · rw [putBefore_nil idle]
        exact ⟨fits, putBefore_nil idle, trivial⟩
  | cons next rest ih =>
      by_cases idle : node.isIdle
      · rwa [putBefore_idle idle]
      · cases found : merge? node next with
        | none =>
            have apart := putBefore_cons_apart found idle rest
            rw [apart]
            exact ⟨fits, apart, compact⟩
        | some merged =>
            rw [putBefore_cons_merged idle found]
            exact ih (fitsCell_maintained.merged found fits compact.1) compact.2.2

theorem Compact.putAllBefore {nodes others : List (Node Hole)} (compact : Compact nodes)
    (compactOthers : Compact others) : Compact (putAllBefore nodes others) := by
  induction nodes with
  | nil => exact compactOthers
  | cons node rest ih => exact putBefore_compact compact.1 (ih compact.2.2)

theorem putAllBefore_nil {nodes : List (Node Hole)} (compact : Compact nodes) :
    putAllBefore nodes [] = nodes := by
  induction nodes with
  | nil => rfl
  | cons node rest ih =>
      rw [putAllBefore, List.foldr_cons, ← putAllBefore, ih compact.2.2]
      exact compact.2.1

theorem putAllBefore_putBefore {node : Node Hole} {nodes others : List (Node Hole)}
    (fits : node.FitsCell) (compact : Compact nodes) (compactOthers : Compact others) :
    putAllBefore (putBefore node nodes) others = putBefore node (putAllBefore nodes others) := by
  induction nodes generalizing node with
  | nil =>
      by_cases idle : node.isIdle
      · rw [putBefore_idle idle, putBefore_idle idle]
      · rw [putBefore_nil idle]
        rfl
  | cons next rest ih =>
      by_cases idle : node.isIdle
      · rw [putBefore_idle idle, putBefore_idle idle]
      · cases found : merge? node next with
        | none =>
            rw [putBefore_cons_apart found idle]
            rfl
        | some merged =>
            have fitsMerged := fitsCell_maintained.merged found fits compact.1
            have later : Compact (putAllBefore rest others) :=
              compact.2.2.putAllBefore compactOthers
            rw [putBefore_cons_merged idle found, ih fitsMerged compact.2.2]
            exact (putBefore_putBefore found fits compact.1 later).symm

theorem putAllBefore_assoc {nodes middle others : List (Node Hole)} (compact : Compact nodes)
    (compactMiddle : Compact middle) (compactOthers : Compact others) :
    putAllBefore (putAllBefore nodes middle) others =
      putAllBefore nodes (putAllBefore middle others) := by
  induction nodes with
  | nil => rfl
  | cons node rest ih =>
      have front : Compact (putAllBefore rest middle) := compact.2.2.putAllBefore compactMiddle
      have together := putAllBefore_putBefore compact.1 front compactOthers
      rw [ih compact.2.2] at together
      exact together

/-! Residues. -/

def loopResidue (inside : List (Node Hole)) : List (Node Hole) :=
  (ofBody? (ofSequence? inside)).toList.flatMap spliced

mutual

/-- What is left of a node, as a sequence. -/
def residue : Node Hole → List (Node Hole)
  | .block children => residueAll children
  | .loop body => loopResidue (residue body)
  | .hole _ => []
  | .move distance => putBefore (.move distance) []
  | .add amount => putBefore (.add amount) []
  | .set value => [.set value]
  | .print => [.print]
  | .read => [.read]
  | .addTo offset => [.addTo offset]

def residueAll : List (Node Hole) → List (Node Hole)
  | [] => []
  | node :: rest => putAllBefore (residue node) (residueAll rest)

end

theorem loopResidue_compact (inside : List (Node Hole)) : Compact (loopResidue inside) := by
  unfold loopResidue ofBody?
  split
  · trivial
  · rename_i body _
    split
    · simp [spliced, Compact, FitsCell, cellSize, putBefore, isIdle]
    · split
      · rename_i children _ _
        cases found : transfer? children with
        | none => simp [spliced, Compact, FitsCell, putBefore, isIdle]
        | some stand =>
            rcases transfer?_eq_some found with
              ⟨out, back, _, _, rfl⟩ | ⟨out, further, back, _, _, rfl⟩ <;>
            simp [spliced, Compact, FitsCell, cellSize, putBefore, isIdle, merge?]
      · simp [spliced, Compact, FitsCell, putBefore, isIdle]

mutual

theorem residue_compact (tree : Node Hole) (fits : tree.Everywhere FitsCell) :
    Compact (residue tree) := by
  match tree with
  | .block children =>
      rw [residue]
      exact residueAll_compact children fits.2
  | .loop body =>
      rw [residue]
      exact loopResidue_compact _
  | .move _ | .add _ =>
      rw [residue]
      exact putBefore_compact fits trivial
  | .set _ =>
      have inside := fits.here
      simpa [residue, Compact, putBefore, isIdle] using inside
  | .print | .read | .addTo _ | .hole _ => simp [residue, Compact, FitsCell, putBefore, isIdle]

theorem residueAll_compact (nodes : List (Node Hole)) (fits : EverywhereAll FitsCell nodes) :
    Compact (residueAll nodes) := by
  match nodes with
  | [] =>
      rw [residueAll]
      trivial
  | node :: rest =>
      rw [residueAll]
      exact (residue_compact node fits.1).putAllBefore (residueAll_compact rest fits.2)

end

theorem residueAll_append {nodes others : List (Node Hole)} (fits : EverywhereAll FitsCell nodes)
    (fitsOthers : EverywhereAll FitsCell others) :
    residueAll (nodes ++ others) = putAllBefore (residueAll nodes) (residueAll others) := by
  induction nodes with
  | nil =>
      rw [residueAll]
      rfl
  | cons node rest ih =>
      rw [List.cons_append, residueAll, ih fits.2, residueAll]
      exact (putAllBefore_assoc (residue_compact node fits.1) (residueAll_compact rest fits.2)
        (residueAll_compact others fitsOthers)).symm

theorem residueAll_singleton {node : Node Hole} (fits : node.Everywhere FitsCell) :
    residueAll [node] = residue node := by
  rw [residueAll, residueAll]
  exact putAllBefore_nil (residue_compact node fits)

theorem residueAll_cons {node : Node Hole} {rest : List (Node Hole)}
    (alone : residue node = putBefore node []) (fits : node.Everywhere FitsCell)
    (fitsRest : EverywhereAll FitsCell rest) :
    residueAll (node :: rest) = putBefore node (residueAll rest) := by
  have empty : Compact ([] : List (Node Hole)) := trivial
  have compactRest := residueAll_compact rest fitsRest
  rw [residueAll, alone, putAllBefore_putBefore fits.here empty compactRest]
  rfl

theorem merge?_residue {first second merged : Node Hole}
    (found : merge? first second = some merged) :
    residue first = putBefore first [] ∧ residue second = putBefore second [] ∧
      residue merged = putBefore merged [] := by
  rcases merge?_eq_some found with
    ⟨_, _, rfl, rfl, rfl⟩ | ⟨_, _, rfl, rfl, rfl⟩ | ⟨_, _, rfl, rfl, rfl⟩ |
    ⟨_, _, rfl, rfl, rfl⟩ <;>
  simp [residue, putBefore, isIdle]

theorem merged_residueAll {first second merged : Node Hole}
    (found : merge? first second = some merged)
    (fits : EverywhereAll FitsCell [first, second]) :
    residueAll [first, second] = residueAll [merged] := by
  obtain ⟨aloneFirst, aloneSecond, aloneMerged⟩ := merge?_residue found
  have fitsMerged : merged.Everywhere FitsCell :=
    (everywhere_iff_of_isInstruction (merge?_isInstruction found)).mpr
      (fitsCell_maintained.merged found fits.1.here fits.2.1.here)
  have none : EverywhereAll FitsCell ([] : List (Node Hole)) := trivial
  have empty : Compact ([] : List (Node Hole)) := trivial
  rw [residueAll_cons aloneFirst fits.1 fits.2, residueAll_cons aloneSecond fits.2.1 none,
    residueAll_cons aloneMerged fitsMerged none, residueAll]
  exact putBefore_putBefore found fits.1.here fits.2.1.here empty

theorem cleared_residueAll {body : Node Hole} (clearing : body.clears) :
    residueAll [.loop body] = residueAll [.set 0] := by
  cases body with
  | add amount =>
      have single : amount = 1 ∨ amount = cellSize - 1 := by simpa [clears] using clearing
      have active : ¬ (.add amount : Node Hole).isIdle := by
        simp only [isIdle, cellSize, decide_eq_true_eq] at single ⊢
        omega
      have left : loopResidue [.add amount] = ([.set 0] : List (Node Hole)) := by
        simp [loopResidue, ofSequence?, ofBody?, clearing, spliced]
      simp only [residueAll, residue, putBefore_nil active, left]
  | _ => simp [clears] at clearing

theorem transferred_residueAll {children : List (Node Hole)} {stand : Node Hole}
    (found : transfer? children = some stand) (active : ∀ child ∈ children, child.Active) :
    residueAll [.loop (.block children)] = residueAll [stand] := by
  -- no neighbours in such a body merge, so all of it is left
  have still : residueAll children = children := by
    rcases transfer?_eq_some_of_active found active with
      ⟨out, back, rfl, away, home, _⟩ | ⟨out, further, back, rfl, away, onward, home, _⟩
    · simp [residueAll, residue, putAllBefore, putBefore, isIdle, merge?, cellSize, away, home]
    · simp [residueAll, residue, putAllBefore, putBefore, isIdle, merge?, cellSize, away, onward,
        home]
  have left : loopResidue children = spliced stand := by
    rcases transfer?_eq_some found with
      ⟨out, back, rfl, _, _⟩ | ⟨out, further, back, rfl, _, _⟩ <;>
    simp [loopResidue, ofSequence?, ofBody?, clears, found]
  rw [residueAll, residue, residue, still, left]
  rcases transfer?_eq_some found with
    ⟨out, back, _, _, rfl⟩ | ⟨out, further, back, _, _, rfl⟩ <;>
  simp [residueAll, residue, spliced, putAllBefore, putBefore, isIdle, merge?]

/-- Rewriting leaves the residue as it is. -/
theorem Rewrites.residueAll_eq {nodes others : List (Node Hole)}
    (rewrites : Rewrites erases nodes others) (fits : EverywhereAll FitsCell nodes) :
    residueAll nodes = residueAll others := by
  have kept {nodes others : List (Node Hole)} (rewrites : Rewrites erases nodes others) :=
    rewrites.everywhereAll fitsCell_maintained
  induction rewrites with
  | refl => rfl
  | trans front _ left right => exact (left fits).trans (right (kept front fits))
  | append front back left right =>
      rw [everywhereAll_append] at fits
      rw [residueAll_append fits.1 fits.2,
        residueAll_append (kept front fits.1) (kept back fits.2), left fits.1, right fits.2]
  | block inside same =>
      have fitsAfter := kept (.block inside) fits
      rw [residueAll_singleton fits.1, residueAll_singleton fitsAfter.1, residue, residue]
      exact same fits.1.2
  | loop inside same =>
      have fitsBody : EverywhereAll FitsCell [_] := ⟨fits.1.2, trivial⟩
      have fitsAfter := kept (.loop inside) fits
      have bodies := same fitsBody
      rw [residueAll_singleton fitsBody.1, residueAll_singleton (kept inside fitsBody).1] at bodies
      rw [residueAll_singleton fits.1, residueAll_singleton fitsAfter.1, residue, residue, bodies]
  | unblock =>
      rw [residueAll_singleton fits.1, residue]
  | @idle node idle =>
      have alone : residue node = putBefore node [] := by
        cases node with
        | move => rw [residue]
        | add => rw [residue]
        | _ => simp [isIdle] at idle
      rw [residueAll_singleton fits.1, alone, putBefore_idle idle, residueAll]
  | hole =>
      rw [residueAll, residueAll, residue]
      rfl
  | merged found => exact merged_residueAll found fits
  | erased _ _ same =>
      have nothing := same ⟨fits.1.2, trivial⟩
      rw [residueAll_singleton fits.1.2, residueAll] at nothing
      rw [residueAll, residueAll, residue, nothing]
      rfl
  | cleared clearing => exact cleared_residueAll clearing
  | transferred found active => exact transferred_residueAll found active

end TapeTree.Node

namespace TapeTree.Tree
open Node

theorem fitsCell_fromCommands : FromCommands FitsCell where
  single := by
    intro command node found
    cases command <;> cases found <;> simp [FitsCell, cellSize]
  block := fun _ => trivial
  loop := fun _ => trivial

end TapeTree.Tree
